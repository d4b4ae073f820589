import BlockDiagram.Export
import BlockDiagram.Proofs.Path
import Mathlib.Data.List.Induction
import Mathlib.Data.List.Nodup
import Mathlib.Tactic.ByContra

/-!
# What an export leaves on the disk

Files are written one after another into one directory, under the last segments of their names. The
last one that is written to a path stays.

* `Export.writeAll_spec`: files are written in their order, all of them unless there is an error.
* `Disk.read?_putFiles`: what is read after files have been written.
* `Export.read?_write_of_ne`: an export changes no file that is not directly in the directory.
* `Export.kept_of_write`: what stands under the paths that an export reports.
-/

namespace BlockDiagram

namespace Disk

/-! ## Reading -/

theorem lookup_filter_ne {files : List (List String × String)} {path other : List String}
    (h : other ≠ path) :
    (files.filter fun file => file.1 != path).lookup other = files.lookup other := by
  induction files with
  | nil => rfl
  | cons file rest ih =>
    obtain ⟨place, text⟩ := file
    by_cases hplace : place = path
    · subst hplace
      rw [List.filter_cons_of_neg (by simp), ih, List.lookup_cons, beq_false_of_ne h]
    · rw [List.filter_cons_of_pos (by simpa using hplace), List.lookup_cons, List.lookup_cons, ih]

theorem lookup_filter_self (files : List (List String × String)) (path : List String) :
    (files.filter fun file => file.1 != path).lookup path = none := by
  rw [List.lookup_eq_none_iff]
  intro file hfile
  have hne := (List.mem_filter.1 hfile).2
  rw [bne_iff_ne] at hne ⊢
  exact Ne.symm hne

theorem read?_putFile (disk : Disk) (path other : List String) (text : String) :
    (disk.putFile path text).read? other
      = if other = path then some text else disk.read? other := by
  rw [read?, putFile, List.lookup_append]
  split
  · next hsame =>
    subst hsame
    rw [lookup_filter_self, Option.none_or, List.lookup_cons, beq_self_eq_true]
  · next hne =>
    rw [lookup_filter_ne hne, List.lookup_cons, beq_false_of_ne hne, List.lookup_nil,
      Option.or_none]
    rfl

/-- The disk after files have been written into a directory, in order. -/
def putFiles (disk : Disk) (directory : List String) (files : List (String × String)) : Disk :=
  files.foldl (fun disk file => disk.putFile (directory ++ [Path.base file.1]) file.2) disk

end Disk

namespace Export

/-- The text of the last file whose name has a last segment. -/
def lastText? (files : List (String × String)) (base : String) : Option String :=
  ((files.filter fun file => Path.base file.1 == base).getLast?).map Prod.snd

theorem lastText?_concat (files : List (String × String)) (file : String × String) (base : String) :
    lastText? (files ++ [file]) base
      = if Path.base file.1 = base then some file.2 else lastText? files base := by
  rw [lastText?, List.filter_append]
  split
  · next hsame =>
    rw [List.filter_cons_of_pos (by simpa using hsame), List.filter_nil, List.getLast?_concat]
    rfl
  · next hne =>
    rw [List.filter_cons_of_neg (by simpa using hne), List.filter_nil, List.append_nil]
    rfl

theorem exists_mem_of_lastText? {files : List (String × String)} {base text : String}
    (h : lastText? files base = some text) :
    ∃ file ∈ files, Path.base file.1 = base ∧ file.2 = text := by
  obtain ⟨file, hlast, htext⟩ := Option.map_eq_some_iff.1 h
  obtain ⟨hfile, hbase⟩ := List.mem_filter.1 (List.mem_of_getLast? hlast)
  exact ⟨file, hfile, beq_iff_eq.1 hbase, htext⟩

theorem lastText?_isSome {files : List (String × String)} {file : String × String}
    (h : file ∈ files) : ∃ text, lastText? files (Path.base file.1) = some text := by
  cases hlast : (files.filter fun other => Path.base other.1 == Path.base file.1).getLast? with
  | none =>
    have hnil := List.getLast?_eq_none_iff.1 hlast
    exact absurd (beq_self_eq_true _) (List.filter_eq_nil_iff.1 hnil file h)
  | some last => exact ⟨last.2, by rw [lastText?, hlast]; rfl⟩

end Export

namespace Disk

/-- A path in the directory holds what was written to it last. -/
theorem read?_putFiles (disk : Disk) (directory : List String) (files : List (String × String))
    (base : String) :
    (disk.putFiles directory files).read? (directory ++ [base])
      = (Export.lastText? files base).or (disk.read? (directory ++ [base])) := by
  induction files using List.reverseRecOn with
  | nil => rfl
  | append_singleton files file ih =>
    rw [putFiles, List.foldl_append, List.foldl_cons, List.foldl_nil, read?_putFile, ← putFiles, ih,
      Export.lastText?_concat]
    by_cases hsame : Path.base file.1 = base
    · rw [hsame, if_pos rfl, if_pos rfl, Option.some_or]
    · rw [if_neg hsame, if_neg]
      intro hpath
      exact hsame (List.singleton_inj.1 (List.append_cancel_left hpath)).symm

theorem read?_putFiles_of_ne (disk : Disk) {directory : List String}
    {files : List (String × String)} {path : List String}
    (h : ∀ file ∈ files, path ≠ directory ++ [Path.base file.1]) :
    (disk.putFiles directory files).read? path = disk.read? path := by
  induction files generalizing disk with
  | nil => rfl
  | cons file rest ih =>
    rw [putFiles, List.foldl_cons, ← putFiles, ih _ fun other hother => h other
      (List.mem_cons_of_mem _ hother), read?_putFile, if_neg (h file List.mem_cons_self)]

theorem read?_makeDirectory (disk : Disk) (directory path : List String) :
    (disk.makeDirectory directory).1.read? path = disk.read? path := by
  unfold makeDirectory
  dsimp only
  split
  · rfl
  · split <;> rfl

/-- What is written is written under a name. -/
theorem write_eq_ok {disk after : Disk} {directory : List String} {path text : String}
    (h : disk.write directory (Path.base path) text = .ok after) :
    Path.IsName (Path.base path) ∧ after = disk.putFile (directory ++ [Path.base path]) text := by
  unfold write at h
  split at h
  · cases h
  · next hname =>
    rw [not_or, not_or] at hname
    split at h
    · cases h
    · split at h
      · cases h
      · cases h
        exact ⟨Path.isName_base hname.1 hname.2.1, rfl⟩

end Disk

namespace Export

/-! ## Runs -/

/-- What is reported of a file. -/
def report (directory : List String) (file : String × String) : Entry :=
  ⟨Path.base file.1, directory ++ [Path.base file.1]⟩

/-- Files are written from the first one on, each under a name, until all are written and reported
or one cannot be. -/
theorem writeAll_spec (disk : Disk) (directory : List String) (files : List (String × String)) :
    ∃ written left, files = written ++ left ∧ (∀ file ∈ written, Path.IsName (Path.base file.1)) ∧
      (writeAll disk directory files).1 = disk.putFiles directory written ∧
      ((writeAll disk directory files).2 = .ok (files.map (report directory)) ∧ left = [] ∨
        ∃ e, (writeAll disk directory files).2 = .error e) := by
  induction files generalizing disk with
  | nil =>
    exact ⟨[], [], rfl, fun file hfile => absurd hfile List.not_mem_nil, rfl, .inl ⟨rfl, rfl⟩⟩
  | cons file rest ih =>
    obtain ⟨name, text⟩ := file
    rw [writeAll]
    cases hwrite : disk.write directory (Path.base name) text with
    | error e =>
      exact ⟨[], _, rfl, fun file hfile => absurd hfile List.not_mem_nil, rfl, .inr ⟨e, rfl⟩⟩
    | ok next =>
      obtain ⟨hname, rfl⟩ := Disk.write_eq_ok hwrite
      obtain ⟨written, left, hfiles, hnames, hdisk, hresult⟩ :=
        ih (disk.putFile (directory ++ [Path.base name]) text)
      refine ⟨(name, text) :: written, left, by rw [hfiles]; rfl, fun file hfile => ?_, ?_, ?_⟩
      · rcases List.mem_cons.1 hfile with rfl | hfile
        · exact hname
        · exact hnames file hfile
      · rw [Disk.putFiles, List.foldl_cons, ← Disk.putFiles, ← hdisk]
        dsimp only
        split <;> next hrest => rw [hrest]
      · dsimp only
        rcases hresult with ⟨hok, hleft⟩ | ⟨e, herror⟩
        · refine .inl ⟨?_, hleft⟩
          split
          · next hrest =>
            rw [hrest] at hok
            rw [Except.ok.inj hok]
            rfl
          · next hrest =>
            rw [hrest] at hok
            cases hok
        · refine .inr ⟨e, ?_⟩
          split
          · next hrest =>
            rw [hrest] at herror
            cases herror
          · next hrest =>
            rw [hrest] at herror
            exact herror

/-- An export changes files in its directory only, directly and under the last segments of the names
that it is given. It does so also when it fails half-way. -/
theorem read?_write_of_ne {disk : Disk} {directory : List String} {files : Table String}
    {path : List String}
    (h : (write disk directory files).1.read? path ≠ disk.read? path) :
    ∃ file ∈ files, Path.IsName (Path.base file.1) ∧ path = directory ++ [Path.base file.1] := by
  have hmade := disk.read?_makeDirectory directory path
  unfold write at h
  split at h
  · next hmake =>
    rw [hmake] at hmade
    exact absurd hmade h
  · next made _ hmake =>
    rw [hmake] at hmade
    obtain ⟨written, left, hfiles, hnames, hdisk, -⟩ := writeAll_spec made directory files
    rw [hdisk] at h
    by_contra hnot
    refine h ((made.read?_putFiles_of_ne fun file hfile hpath => hnot ?_).trans hmade)
    exact ⟨file, hfiles ▸ List.mem_append_left _ hfile, hnames file hfile, hpath⟩

/-- After an export that succeeds all files are written and reported. -/
theorem write_eq_ok {disk after : Disk} {directory : List String} {files : Table String}
    {entries : List Entry} (h : write disk directory files = (after, .ok entries)) :
    entries = files.map (report directory) ∧
      ∃ made : Disk, (∀ path, made.read? path = disk.read? path) ∧
        after = made.putFiles directory files := by
  have hmade := disk.read?_makeDirectory directory
  unfold write at h
  split at h
  · cases h
  · next made _ hmake =>
    rw [hmake] at hmade
    obtain ⟨written, left, hfiles, -, hdisk, hresult⟩ := writeAll_spec made directory files
    rw [h] at hdisk hresult
    rcases hresult with ⟨hok, rfl⟩ | ⟨e, herror⟩
    · rw [List.append_nil] at hfiles
      exact ⟨Except.ok.inj hok, made, hmade, hfiles ▸ hdisk⟩
    · cases herror

/-- After an export that succeeds each file is reported under the last segment of its name, and the
path in the report holds the text of the last file that is reported there. So every path holds the
text of the file it is reported for exactly if files with one last segment have one text, and no two
files are reported under one path exactly if all last segments differ. Nothing else changes. -/
theorem kept_of_write {disk after : Disk} {directory : List String} {files : Table String}
    {entries : List Entry} (h : write disk directory files = (after, .ok entries)) :
    entries = files.map (fun file => ⟨Path.base file.1, directory ++ [Path.base file.1]⟩) ∧
      (∀ file ∈ files,
        after.read? (directory ++ [Path.base file.1]) = lastText? files (Path.base file.1)) ∧
      ((∀ file ∈ files, after.read? (directory ++ [Path.base file.1]) = some file.2) ↔
        ∀ file ∈ files, ∀ other ∈ files, Path.base file.1 = Path.base other.1 →
          file.2 = other.2) ∧
      ((entries.map Entry.path).Nodup ↔ (files.map fun file => Path.base file.1).Nodup) ∧
      ∀ path, (∀ entry ∈ entries, path ≠ entry.path) → after.read? path = disk.read? path := by
  obtain ⟨hentries, made, hmade, hdisk⟩ := write_eq_ok h
  have hread : ∀ file ∈ files,
      after.read? (directory ++ [Path.base file.1]) = lastText? files (Path.base file.1) := by
    intro file hfile
    obtain ⟨text, htext⟩ := lastText?_isSome hfile
    rw [hdisk, Disk.read?_putFiles, htext, Option.some_or]
  refine ⟨hentries, hread, ⟨fun hkept file hfile other hother hsame => ?_,
    fun hagree file hfile => ?_⟩, ?_, fun path hpath => ?_⟩
  · have hfirst := hkept file hfile
    rw [hsame, hkept other hother] at hfirst
    exact (Option.some.inj hfirst).symm
  · obtain ⟨text, htext⟩ := lastText?_isSome hfile
    obtain ⟨other, hother, hsame, hlast⟩ := exists_mem_of_lastText? htext
    rw [hread file hfile, htext, ← hlast, hagree file hfile other hother hsame.symm]
  · have hpaths : entries.map Entry.path
        = (files.map fun file => Path.base file.1).map fun base => directory ++ [base] := by
      rw [hentries, List.map_map, List.map_map]
      rfl
    rw [hpaths, List.nodup_map_iff fun base other hsame =>
      List.singleton_inj.1 (List.append_cancel_left hsame)]
  · rw [hdisk, Disk.read?_putFiles_of_ne, hmade]
    intro file hfile
    exact hpath _ (hentries ▸ List.mem_map_of_mem hfile)

/-- Two files of one name in different directories, and one beside them. -/
def namesakes : Table String := [("a/main.tf", "a"), ("variables.tf", ""), ("b/main.tf", "b")]

/-- Files with different last segments are all kept. -/
theorem kept_of_write_apart : ∃ after entries,
    write Disk.empty ["out"] (namesakes.take 2) = (after, .ok entries) ∧
    (entries.map Entry.path).Nodup ∧
    ∀ file ∈ namesakes.take 2, after.read? (["out"] ++ [Path.base file.1]) = some file.2 := by
  have hbases : ((namesakes.take 2).map fun file => Path.base file.1)
      = ["main.tf", "variables.tf"] := by
    decide +kernel
  have hwrite : write Disk.empty ["out"] (namesakes.take 2)
      = (_, .ok _) := rfl
  obtain ⟨-, -, hkept, hpaths, -⟩ := kept_of_write hwrite
  refine ⟨_, _, hwrite, hpaths.2 ?_, hkept.2 ?_⟩
  · rw [hbases]
    decide
  · decide +kernel

/-- Both namesakes are reported, under one path, and only one of them is there. -/
theorem exists_file_not_kept : ∃ after entries,
    write Disk.empty ["out"] namesakes = (after, .ok entries) ∧
    entries = namesakes.map (report ["out"]) ∧ ¬ (entries.map Entry.path).Nodup ∧
    ∃ file ∈ namesakes, after.read? (report ["out"] file).path ≠ some file.2 := by
  refine ⟨_, _, rfl, ?_, ?_, ("a/main.tf", "a"), ?_, ?_⟩
  · rfl
  · decide +kernel
  · decide +kernel
  · decide +kernel

end Export

end BlockDiagram
