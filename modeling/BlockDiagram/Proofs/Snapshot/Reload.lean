import BlockDiagram.Proofs.Block.Written
import BlockDiagram.Proofs.Diagram.Validity
import BlockDiagram.Proofs.Snapshot.Reader
import BlockDiagram.Proofs.Value.Equal

/-!
# A diagram and what is read back of it

What is read back of a snapshot is the diagram itself, but for icons and verbs that did not count as
given and for the form of zero coordinates. Neither is in files, nor does it matter for a check, and
the snapshots are equal.

* `Node.equal_reloaded`: coordinates.
* `Diagram.equal_snapshot_reloaded`: snapshots.
* `Diagram.checked_reloaded`: checks.
* `Diagram.written_reloaded`: what is written.
-/

namespace BlockDiagram

/-! ## Snapshots -/

namespace Value

/-- The whole zero in the place of another zero is the same number. -/
theorem equal_orElse_zero {value : Value} (hnumber : value.isNumber = true)
    (hnan : value.hasNoNan = true) : equal (value.orElse (.int 0)) value = true := by
  have hkeys : value.hasDistinctKeys = true := by
    cases value <;> first | rfl | cases hnumber
  rw [orElse]
  split
  · exact equal_self value hnan hkeys
  · next hzero =>
    cases value with
    | int n =>
      obtain rfl : n = 0 := by
        simpa [isTruthy] using hzero
      rfl
    | float x =>
      cases x with
      | negativeZero => rfl
      | rational q =>
        obtain rfl : q = 0 := by
          simpa [isTruthy, Binary64.isZero] using hzero
        rfl
      | nan => exact absurd rfl hzero
      | infinity negative => exact absurd rfl hzero
    | _ => cases hnumber

end Value

theorem givenField_orElse (key : String) (value : Value) :
    givenField key (value.orElse .null) = givenField key value := by
  by_cases h : value.isTruthy = true
  · rw [Value.orElse_of_isTruthy h]
  · rw [Value.orElse, if_neg h, givenField, givenField, if_neg h]
    rfl

theorem Edge.toValue_reloaded (edge : Edge) : edge.reloaded.toValue = edge.toValue := by
  have hverb : givenField "verb" edge.reloaded.verb = givenField "verb" edge.verb :=
    givenField_orElse _ _
  rw [toValue, toValue, hverb]
  rfl

namespace Node

variable {node : Node}

/-- The coordinates that are read back are the same numbers. -/
theorem equal_reloaded (hnode : node.IsComplete) (hnan : node.toValue.hasNoNan = true) :
    node.reloaded.x.equal node.x = true ∧ node.reloaded.y.equal node.y = true := by
  have hx : node.x.hasNoNan = true :=
    Value.hasNoNan_of_mem_fields hnan (List.mem_append_left _ (List.mem_append_left _
      (show ("x", node.x) ∈ node.fixedFields by simp [fixedFields])))
  have hy : node.y.hasNoNan = true :=
    Value.hasNoNan_of_mem_fields hnan (List.mem_append_left _ (List.mem_append_left _
      (show ("y", node.y) ∈ node.fixedFields by simp [fixedFields])))
  exact ⟨Value.equal_orElse_zero hnode.x hx, Value.equal_orElse_zero hnode.y hy⟩

theorem equal_toValue_reloaded (hnode : node.IsComplete) (hnan : node.toValue.hasNoNan = true)
    (hkeys : node.toValue.hasDistinctKeys = true) :
    node.reloaded.toValue.equal node.toValue = true := by
  obtain ⟨hx, hy⟩ := equal_reloaded hnode hnan
  let before : List (String × Value) := [
    ("id", .text node.id), ("kind", .text node.kind.key), ("name", nameValue node.name),
    ("label", node.label), ("config", node.config)]
  let after : List (String × Value) := [("width", node.width), ("height", node.height)]
    ++ givenField "resourceType" (nameValue node.resourceType) ++ givenField "icon" node.icon
  have hvalue : node.toValue = .record (before ++ ("x", node.x) :: ("y", node.y) :: after) := rfl
  have hreloaded : node.reloaded.toValue
      = .record (before ++ ("x", node.reloaded.x) :: ("y", node.reloaded.y) :: after) := by
    have hicon : givenField "icon" node.reloaded.icon = givenField "icon" node.icon :=
      givenField_orElse _ _
    rw [toValue, hicon]
    rfl
  rw [hvalue] at hnan hkeys
  have hself : ∀ field ∈ before ++ ("x", node.x) :: ("y", node.y) :: after,
      field.2.equal field.2 = true := fun field hfield =>
    Value.equal_self field.2 (Value.hasNoNan_of_mem_fields hnan hfield)
      (Value.hasDistinctKeys_of_mem hkeys hfield)
  simp only [List.forall_mem_append, List.forall_mem_cons] at hself
  obtain ⟨hbefore, -, -, hafter⟩ := hself
  rw [hvalue, hreloaded]
  refine Value.equal_of_forall₂ (Value.nodup_keys_of_hasDistinctKeys hkeys) (List.rel_append ?_ ?_)
  · exact List.forall₂_same.2 fun field hfield => ⟨rfl, hbefore field hfield⟩
  · exact .cons ⟨rfl, hx⟩ (.cons ⟨rfl, hy⟩
      (List.forall₂_same.2 fun field hfield => ⟨rfl, hafter field hfield⟩))

end Node

namespace Diagram

variable {d : Diagram}

theorem mem_snapshotFields_nodes (d : Diagram) :
    ("nodes", .list (d.nodes.values.map Node.toValue)) ∈ d.snapshotFields :=
  List.mem_cons_self

theorem hasNoNan_toValue {node : Node} (hnan : d.snapshot.hasNoNan = true)
    (hnode : node ∈ d.nodes.values) : node.toValue.hasNoNan = true :=
  Value.hasNoNan_of_mem_items (Value.hasNoNan_of_mem_fields hnan d.mem_snapshotFields_nodes)
    (List.mem_map_of_mem hnode)

theorem hasDistinctKeys_toValue {node : Node} (hkeys : d.snapshot.hasDistinctKeys = true)
    (hnode : node ∈ d.nodes.values) : node.toValue.hasDistinctKeys = true :=
  Value.hasDistinctKeys_of_mem_items
    (Value.hasDistinctKeys_of_mem hkeys d.mem_snapshotFields_nodes) (List.mem_map_of_mem hnode)

/-- What is read back has an equal snapshot. -/
theorem equal_snapshot_reloaded (hd : d.IsComplete) (hnan : d.snapshot.hasNoNan = true)
    (hkeys : d.snapshot.hasDistinctKeys = true) :
    d.reloaded.snapshot.equal d.snapshot = true := by
  have hself : ∀ field ∈ d.snapshotFields, field.2.equal field.2 = true := fun field hfield =>
    Value.equal_self field.2 (Value.hasNoNan_of_mem_fields hnan hfield)
      (Value.hasDistinctKeys_of_mem hkeys hfield)
  have hnodes : (Value.list (d.reloaded.nodes.values.map Node.toValue)).equal
      (.list (d.nodes.values.map Node.toValue)) = true := by
    have hvalues : d.reloaded.nodes.values = d.nodes.values.map Node.reloaded := by
      simp only [reloaded, Table.values, List.map_map, Function.comp_def]
    rw [hvalues, List.map_map]
    refine Value.equalItems_of_forall₂ (List.forall₂_map_left_iff.2 (List.forall₂_map_right_iff.2
      (List.forall₂_same.2 fun node hnode => ?_)))
    exact Node.equal_toValue_reloaded (hd.of_mem_values hnode) (hasNoNan_toValue hnan hnode)
      (hasDistinctKeys_toValue hkeys hnode)
  have hedges : d.reloaded.edges.map Edge.toValue = d.edges.map Edge.toValue := by
    rw [reloaded, List.map_map]
    exact List.map_congr_left fun edge _ => edge.toValue_reloaded
  -- So the two snapshots differ in their nodes at most.
  have hfields : d.reloaded.snapshotFields =
      ("nodes", .list (d.reloaded.nodes.values.map Node.toValue)) :: d.snapshotFields.tail := by
    rw [snapshotFields, hedges]
    rfl
  rw [snapshot, snapshot, hfields]
  exact Value.equal_of_forall₂ (Value.nodup_keys_of_hasDistinctKeys hkeys)
    (.cons ⟨rfl, hnodes⟩ (List.forall₂_same.2 fun field hfield =>
      ⟨rfl, hself field (List.mem_of_mem_tail hfield)⟩))

/-! ## Checks and files -/

theorem skeleton_reloaded (d : Diagram) : d.reloaded.skeleton = d.skeleton := by
  simp only [skeleton, reloaded, List.map_map, Function.comp_def]
  rfl

/-- What is read back of a well-formed diagram passes the check. -/
theorem checked_reloaded (hd : d.WellFormed) :
    d.reloaded.checked = .ok (d.reloaded.report false) := by
  have hvalid : d.reloaded.isValid false = true := by
    rw [isValid, (hd.of_skeleton_eq d.skeleton_reloaded).issuesOf_error]
    rfl
  rw [checked, if_pos hvalid]

theorem written_reloaded (d : Diagram) : d.reloaded.written = d.written := by
  simp only [written, reloaded, Table.values, List.map_map, Function.comp_def]
  exact List.map_congr_left fun entry _ => Node.written_congr rfl rfl

end Diagram

end BlockDiagram
