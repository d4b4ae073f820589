import BlockDiagram.Proofs.Service.Kept
import BlockDiagram.Proofs.Snapshot.Reload

/-!
# Kept diagrams outlive their snapshots

A kept diagram is well-formed and complete, so its snapshot has everything that is checked when it
is read. Configurations, patches and settings let more into a diagram than the reader takes: names
that are blank, labels of edges that are no texts, spacings below zero. A diagram without these
comes back, and it compares as equal if it holds nothing that is not a number.

* `reload_of_run`: what comes back of a kept diagram.
* `reload_of_joinedRun`: a diagram with an icon that does not count as given and a zero that is not
  whole.
-/

namespace BlockDiagram.Service

variable {settings : Settings}

/-- A kept diagram whose names and types are not blank, whose edges have texts for labels, whose
options are not negative, that holds nothing that is not a number, and whose records hold each key
once, is read back from its snapshot. What comes back has equal coordinates and an equal snapshot,
passes the check, and has the same files, or fails alike. -/
theorem reload_of_run {s : Service} (hs : make? settings = .ok s)
    (steps : List (Settings × Option Reply × Step)) {id : String} {d : Diagram}
    (hd : (s.run steps).store.peek? id = some d)
    (hnamed : ∀ node ∈ d.nodes.values, node.isNamed = true)
    (hlabels : ∀ edge ∈ d.edges, ∃ label, edge.label = .text label)
    (hoptions : d.options.isNonNegative = true) (hnan : d.snapshot.hasNoNan = true)
    (hkeys : d.snapshot.hasDistinctKeys = true) :
    Snapshot.diagram d.snapshot = .ok d.reloaded ∧
      (∀ node ∈ d.nodes.values, node.reloaded.x.equal node.x = true ∧
        node.reloaded.y.equal node.y = true) ∧
      d.reloaded.snapshot.equal d.snapshot = true ∧
      d.reloaded.checked = .ok (d.reloaded.report false) ∧
      ∀ extension withHeader,
        d.reloaded.files extension withHeader = d.files extension withHeader := by
  obtain ⟨hwf, hcomplete⟩ := sound_of_kept hs hd
  refine ⟨Snapshot.diagram_snapshot hwf hcomplete hnamed hlabels hoptions, fun node hnode => ?_,
    Diagram.equal_snapshot_reloaded hcomplete hnan hkeys, Diagram.checked_reloaded hwf,
    Diagram.files_congr d.written_reloaded⟩
  exact Node.equal_reloaded (hcomplete.of_mem_values hnode) (Diagram.hasNoNan_toValue hnan hnode)

/-- Two variables are drawn and joined. Then the first one is moved to a zero that is not whole, and
gets an icon that does not count as given. -/
def joinedRun : List (Settings × Option Reply × Step) :=
  [(.standard, none,
      .create "d" (.record [("variable", .record [("region", .record []), ("zone", .record [])])])
      (.record [])),
    (.standard, none,
      .on "d" (.addEdge (.record [
        ("sourceId", .text "var.region"), ("targetId", .text "var.zone"),
        ("label", .text "beside")]))),
    (.standard, none,
      .on "d" (.updateNode (.text "var.region")
        (.record [("x", .float .negativeZero), ("icon", .text "")])))]

theorem reload_of_joinedRun : ∃ s d, make? Settings.standard = .ok s ∧
    (s.run joinedRun).store.peek? "d" = some d ∧ Snapshot.diagram d.snapshot = .ok d.reloaded ∧
    d.nodes.keys = ["var.region", "var.zone"] ∧ d.edges.length = 1 ∧
    (∃ node ∈ d.nodes.values, node.x.isTruthy = false ∧ node.reloaded.x.equal node.x = true) ∧
    d.reloaded.snapshot.equal d.snapshot = true := by
  obtain ⟨s, hs⟩ : ∃ s, make? Settings.standard = .ok s := ⟨_, rfl⟩
  have hkept : ((s.run joinedRun).store.peek? "d").any (fun d =>
      d.nodes.values.all Node.isNamed && d.edges.all (fun edge => edge.label.text?.isSome)
        && d.options.isNonNegative && d.snapshot.hasNoNan && d.snapshot.hasDistinctKeys
        && d.nodes.values.any (fun node => !node.x.isTruthy)
        && d.nodes.keys == ["var.region", "var.zone"] && d.edges.length == 1) = true := by
    cases hs
    decide +kernel
  obtain ⟨d, hd, hkept⟩ := (Option.any_eq_true _ _).1 hkept
  simp only [Bool.and_eq_true, List.all_eq_true, List.any_eq_true, Bool.not_eq_true',
    beq_iff_eq] at hkept
  obtain ⟨⟨⟨⟨⟨⟨⟨hnamed, htexts⟩, hoptions⟩, hnan⟩, hkeys⟩, node, hnode, hx⟩, hnodes⟩, hedges⟩ :=
    hkept
  have hlabels : ∀ edge ∈ d.edges, ∃ label, edge.label = .text label := by
    intro edge hedge
    have htext := htexts edge hedge
    cases hlabel : edge.label with
    | text label => exact ⟨label, rfl⟩
    | _ => rw [hlabel] at htext; cases htext
  obtain ⟨hread, hcoordinates, hequal, -, -⟩ :=
    reload_of_run hs joinedRun hd hnamed hlabels hoptions hnan hkeys
  exact ⟨s, d, hs, hd, hread, hnodes, hedges, ⟨node, hnode, hx, (hcoordinates node hnode).1⟩,
    hequal⟩

end BlockDiagram.Service
