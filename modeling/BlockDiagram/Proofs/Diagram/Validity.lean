import BlockDiagram.Proofs.Diagram.WellFormed
import BlockDiagram.Validity

/-!
# Errors of a diagram

Of the passes of a check only the first two report errors: that of the nodes' ids and that of the
edges' ends.

* `issuesOf_error`: the errors of a diagram.
* `WellFormed.issuesOf_error`: a well-formed diagram has none.
-/

namespace BlockDiagram

/-! ## Ids are not blank -/

theorem Kind.isBlankText_nodeId (kind : Kind) (name type : Option String) :
    Text.isBlankText (kind.nodeId name type) = false := by
  have hroot : ∃ c ∈ kind.root.toList, Text.isBlank c = false := by
    cases kind with
    | resource => exact ⟨'r', by decide, by decide⟩
    | dataSource => exact ⟨'d', by decide, by decide⟩
    | moduleCall => exact ⟨'m', by decide, by decide⟩
    | inputVariable => exact ⟨'v', by decide, by decide⟩
    | outputValue => exact ⟨'o', by decide, by decide⟩
  obtain ⟨c, hc, hblank⟩ := hroot
  have hmem : c ∈ (kind.nodeId name type).toList := by
    unfold nodeId
    split <;> simp [hc]
  rw [Text.isBlankText, ← Bool.not_eq_true, List.all_eq_true]
  intro hall
  rw [hall c hmem] at hblank
  cases hblank

namespace Diagram

/-! ## Errors -/

theorem severity_of_mem_nodeIdIssues {d : Diagram} {issue : Issue} (h : issue ∈ d.nodeIdIssues) :
    issue.severity = .error := by
  obtain ⟨⟨key, node⟩, -, h⟩ := List.mem_filterMap.1 h
  simp only [nodeIdIssue?] at h
  split at h
  · cases h; rfl
  · split at h
    · cases h; rfl
    · cases h

theorem severity_of_mem_endpointIssues {d : Diagram} {edge : Edge} {issue : Issue}
    (h : issue ∈ d.endpointIssues edge) : issue.severity = .error := by
  obtain ⟨role, -, h⟩ := List.mem_filterMap.1 h
  split at h
  · cases h
  · cases h; rfl

theorem severity_of_mem_loopIssues {d : Diagram} {issue : Issue} (h : issue ∈ d.loopIssues) :
    issue.severity = .warning := by
  obtain ⟨edge, -, rfl⟩ := List.mem_map.1 h
  rfl

theorem severity_of_mem_orphanIssues {d : Diagram} {issue : Issue} (h : issue ∈ d.orphanIssues) :
    issue.severity = .info := by
  obtain ⟨id, -, rfl⟩ := List.mem_map.1 h
  rfl

theorem severity_of_mem_parallelIssues {d : Diagram} {issue : Issue}
    (h : issue ∈ d.parallelIssues) : issue.severity = .info := by
  obtain ⟨⟨source, target⟩, -, h⟩ := List.mem_filterMap.1 h
  dsimp only at h
  split at h
  · cases h; rfl
  · cases h

/-- The errors of a diagram are those of its nodes' ids and of its edges' ends. -/
theorem issuesOf_error (d : Diagram) :
    d.issuesOf .error = d.nodeIdIssues ++ d.edges.flatMap d.endpointIssues := by
  have hids : d.nodeIdIssues.filter (fun issue => issue.severity = .error) = d.nodeIdIssues :=
    List.filter_eq_self.2 fun issue h => by simp [severity_of_mem_nodeIdIssues h]
  have hends : (d.edges.flatMap d.endpointIssues).filter (fun issue => issue.severity = .error)
      = d.edges.flatMap d.endpointIssues := by
    refine List.filter_eq_self.2 fun issue h => ?_
    obtain ⟨edge, -, h⟩ := List.mem_flatMap.1 h
    simp [severity_of_mem_endpointIssues h]
  have hloops : d.loopIssues.filter (fun issue => issue.severity = .error) = [] :=
    List.filter_eq_nil_iff.2 fun issue h => by simp [severity_of_mem_loopIssues h]
  have horphans : d.orphanIssues.filter (fun issue => issue.severity = .error) = [] :=
    List.filter_eq_nil_iff.2 fun issue h => by simp [severity_of_mem_orphanIssues h]
  have hparallel : d.parallelIssues.filter (fun issue => issue.severity = .error) = [] :=
    List.filter_eq_nil_iff.2 fun issue h => by simp [severity_of_mem_parallelIssues h]
  simp only [issuesOf, issues, List.filter_append, hids, hends, hloops, horphans, hparallel,
    List.append_nil]

theorem WellFormed.issuesOf_error {d : Diagram} (hd : d.WellFormed) : d.issuesOf .error = [] := by
  rw [Diagram.issuesOf_error, List.append_eq_nil_iff]
  constructor
  · refine List.filterMap_eq_nil_iff.2 ?_
    rintro ⟨key, node⟩ hnode
    have hkey := hd.id_eq_key key node hnode
    have hblank : Text.isBlankText key = false := by
      rw [← hkey, (hd.node key node hnode).id_eq]
      exact node.kind.isBlankText_nodeId node.name node.resourceType
    have hne : key ≠ "" := by
      rintro rfl
      cases hblank
    simp [nodeIdIssue?, hblank, hne, hkey]
  · refine List.flatMap_eq_nil_iff.2 fun edge hedge => ?_
    simp [endpointIssues, Edge.endpoint, hd.source edge hedge, hd.target edge hedge]

/-- A well-formed diagram finds each of its edges under the edge's own id. -/
theorem WellFormed.edge?_id {d : Diagram} (hd : d.WellFormed) {e : Edge} (he : e ∈ d.edges) :
    d.edge? e.id = some e := by
  obtain ⟨s, hs⟩ := hd.edgeId_text e he
  have hsome : (d.edges.find? fun other => other.id.same e.id).isSome := by
    rw [List.find?_isSome]
    exact ⟨e, he, by rw [hs]; exact Value.same_text_iff.2 rfl⟩
  obtain ⟨found, hfound⟩ := Option.isSome_iff_exists.1 hsome
  have hid : found.id = e.id := by
    have htest := List.find?_some hfound
    rw [hs] at htest ⊢
    exact Value.same_text_iff.1 htest
  have hsame : found = e :=
    List.inj_on_of_nodup_map hd.edgeIds_nodup (List.mem_of_find?_eq_some hfound) he hid
  rw [edge?, hfound, hsame]

end Diagram

end BlockDiagram
