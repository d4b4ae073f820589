import BlockDiagram.Api.Server
import BlockDiagram.Proofs.Export.Written

/-!
# Exports stay below their root

The directory that a request names is taken from the export root on. It is accepted exactly if what
is left of the joined path, when nothing cancels any more, is the root or lies below it, and files
are written directly into it.

* `Export.target_eq`: which directories are accepted.
* `Server.exportCode_cases`: a request fails before anything is written, or writes into the target.
* `Server.exported_below_root`: the two together.
-/

namespace BlockDiagram

namespace Export

theorem target_eq {root : List String} {directory : String} (h : '\x00' ∉ directory.toList) :
    target root directory
      = if root <+: Path.resolve root directory then .ok (Path.resolve root directory)
        else .error (.invalid (.outsideRoot directory)) := by
  rw [target, if_neg (by rwa [List.contains_iff_mem])]
  simp only [Path.isWithin_iff]

theorem eq_resolve_of_target {root directory : List String} {output : String}
    (h : target root output = .ok directory) :
    directory = Path.resolve root output ∧ root <+: directory := by
  unfold target at h
  split at h
  · cases h
  · dsimp only at h
    split at h
    · next hwithin =>
      cases h
      exact ⟨rfl, Path.isWithin_iff.1 hwithin⟩
    · cases h

end Export

namespace Api.Server

variable {env : Surroundings}

/-- An export fails with the server as it was, or it writes into the directory that it names. -/
theorem exportCode_cases (env : Surroundings) (server : Server) (fields : Table Value) :
    ((server.exportCode env fields).1 = server ∧
        ∃ e, (server.exportCode env fields).2 = .error e) ∨
      ∃ directory files,
        Export.target env.exportRoot ((Value.record fields).field "output_directory").shown
          = .ok directory ∧
        (server.exportCode env fields).1.disk = (Export.write server.disk directory files).1 := by
  unfold exportCode
  extract_lets given files
  clear_value files
  split
  · exact .inl ⟨rfl, _, rfl⟩
  · split
    · exact .inl ⟨rfl, _, rfl⟩
    · next directory htarget => exact .inr ⟨directory, _, htarget, rfl⟩

/-- Whatever a request to export holds, it fails before anything is written, or the directory that
it names is the export root or lies below it, and every file that changes lies directly in that
directory, under a name. A directory without null characters is accepted if what is left of it,
joined to the root, is the root or lies below it, and refused as outside the root if not. -/
theorem exported_below_root (hroot : ∀ part ∈ env.exportRoot, Path.IsName part) (server : Server)
    (body : Body) :
    (((server.outcome env body .exportCode).1 = server ∧
          ∃ e, (server.outcome env body .exportCode).2 = .error e) ∨
        ∃ fields directory, required exportSchema body = .ok fields ∧
          Export.target env.exportRoot ((Value.record fields).field "output_directory").shown
            = .ok directory ∧
          env.exportRoot <+: directory ∧ (∀ part ∈ directory, Path.IsName part) ∧
          ∀ path, (server.outcome env body .exportCode).1.disk.read? path
              ≠ server.disk.read? path →
            ∃ name, Path.IsName name ∧ path = directory ++ [name]) ∧
      ∀ output : String, '\x00' ∉ output.toList → ∃ normal,
        (∀ other, Path.IsNormalOf (Path.joined env.exportRoot output) other ↔ other = normal) ∧
        Export.target env.exportRoot output
          = if env.exportRoot <+: normal then .ok normal
            else .error (.invalid (.outsideRoot output)) := by
  constructor
  · simp only [outcome, withBody]
    cases hfields : required exportSchema body with
    | error e => exact .inl ⟨rfl, e, rfl⟩
    | ok fields =>
      dsimp only
      rcases exportCode_cases env server fields with hfailed | ⟨directory, files, htarget, hdisk⟩
      · exact .inl hfailed
      · obtain ⟨hresolved, hbelow⟩ := Export.eq_resolve_of_target htarget
        refine .inr ⟨fields, directory, rfl, htarget, hbelow, ?_, fun path hpath => ?_⟩
        · rw [hresolved]
          exact Path.isName_of_mem_resolve hroot _
        · rw [hdisk] at hpath
          obtain ⟨file, -, hname, hchild⟩ := Export.read?_write_of_ne hpath
          exact ⟨_, hname, hchild⟩
  · intro output hnull
    exact ⟨_, fun other => Path.isNormalOf_joined_iff hroot, Export.target_eq hnull⟩

/-- An installation that exports below a directory. -/
def surroundings : Surroundings := ⟨.standard, none, Nat.repr, ["srv", "generated"]⟩

def emptyServer : Server := ⟨⟨⟨128, [], by decide⟩, []⟩, Disk.empty, 0⟩

/-- A file whose name leads upwards, for a directory that is named the long way round. -/
def windingBody : Body :=
  .ok (.record [("generatedCode", .record [("../evil.tf", .text "e")]),
    ("outputDirectory", .text "../x//../generated/./project")])

theorem exported_below_root_winding :
    (emptyServer.outcome surroundings windingBody .exportCode).1.disk.read?
        ["srv", "generated", "project", "evil.tf"] = some "e" ∧
      ∃ fields directory, required exportSchema windingBody = .ok fields ∧
        Export.target surroundings.exportRoot
          ((Value.record fields).field "output_directory").shown = .ok directory ∧
        surroundings.exportRoot <+: directory ∧
        ∀ path, (emptyServer.outcome surroundings windingBody .exportCode).1.disk.read? path
            ≠ emptyServer.disk.read? path →
          ∃ name, Path.IsName name ∧ path = directory ++ [name] := by
  have hroot : ∀ part ∈ surroundings.exportRoot, Path.IsName part := by
    unfold Path.IsName
    decide +kernel
  have hwritten : (emptyServer.outcome surroundings windingBody .exportCode).1.disk.read?
      ["srv", "generated", "project", "evil.tf"] = some "e" := by
    decide +kernel
  refine ⟨hwritten, ?_⟩
  rcases (exported_below_root hroot emptyServer windingBody).1 with ⟨hsame, -⟩ | hbelow
  · rw [hsame] at hwritten
    cases hwritten
  · obtain ⟨fields, directory, hfields, htarget, hwithin, -, hchanged⟩ := hbelow
    exact ⟨fields, directory, hfields, htarget, hwithin, hchanged⟩

end Api.Server

end BlockDiagram
