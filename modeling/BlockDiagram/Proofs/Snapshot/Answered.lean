import BlockDiagram.Proofs.Diagram.Answered
import BlockDiagram.Proofs.Snapshot.Reader

/-!
# What the reading of a snapshot answers

Reading a snapshot succeeds or is refused, but for one thing: an edge with both ends whose id is a
list or a record, where all that comes before it was read.

* `Snapshot.Misplaces`: such an edge.
* `Snapshot.diagram_eq`: a snapshot is read nodes first, then edge by edge.
* `Snapshot.isAnswered_diagram_iff`: when a snapshot is answered.
-/

namespace BlockDiagram.Snapshot

open Outcome

/-- An edge of a snapshot that has both ends, and an id that is no key. -/
def Misplaces (edge : Value) : Prop :=
  ∃ fields source target, edge = .record fields ∧
    endpoint? fields "sourceId" "source_id" = some source ∧
    endpoint? fields "targetId" "target_id" = some target ∧
    (edge.field "id").isTruthy = true ∧ (edge.field "id").isKey = false

theorem isAnswered_items (value : Value) (key : String) : IsAnswered (items value key) := by
  unfold items
  split
  · exact isAnswered_ok _
  · exact isAnswered_error rfl

/-- Items that a snapshot has under a key are a list under it. -/
theorem field_of_items {value : Value} {key : String} {found : List Value}
    (h : items value key = .ok found) (hfound : found ≠ []) : value.field key = .list found := by
  unfold items Value.orElse at h
  split at h
  · next heq =>
    cases h
    split at heq
    · exact heq
    · cases heq
      exact absurd rfl hfound
  · cases h

theorem isAnswered_addNode (d : Diagram) (value : Value) : IsAnswered (addNode d value) :=
  (Payload.isAnswered_node value).bind fun _ _ =>
    isAnswered_ite (isAnswered_error rfl) (isAnswered_ok _)

theorem isKey_orElse_text_iff (value : Value) (s : String) :
    (value.orElse (.text s)).isKey = false ↔ value.isTruthy = true ∧ value.isKey = false := by
  rw [Value.orElse]
  cases hgiven : value.isTruthy with
  | true => exact (and_iff_right rfl).symm
  | false => exact iff_of_false Bool.noConfusion fun h => Bool.noConfusion h.1

theorem isAnswered_addEdge_iff (same : Value → Value → Bool) (d : Diagram) (edge : Value) :
    IsAnswered (addEdge same d edge) ↔ ¬ Misplaces edge := by
  unfold addEdge
  split
  · next fields =>
    split
    · next source target hsource htarget =>
      have hid := isKey_orElse_text_iff ((Value.record fields).field "id")
        (d.freshEdgeId source target)
      dsimp only
      cases hkey : (((Value.record fields).field "id").orElse
          (.text (d.freshEdgeId source target))).isKey with
      | false =>
        refine iff_of_false (not_isAnswered_error rfl) (not_not_intro ?_)
        exact ⟨fields, source, target, rfl, hsource, htarget, hid.1 hkey⟩
      | true =>
        rw [Bool.not_true, if_neg Bool.false_ne_true]
        refine iff_of_true (isAnswered_ite (isAnswered_error rfl) ?_) ?_
        · exact (Payload.isAnswered_edgeType _).bind fun _ _ => isAnswered_ok _
        · rintro ⟨_, _, _, -, -, -, hgiven⟩
          rw [hid.2 hgiven] at hkey
          cases hkey
    · next hends =>
      refine iff_of_true (isAnswered_error rfl) ?_
      rintro ⟨_, source, target, ⟨⟩, hsource, htarget, -⟩
      exact hends source target hsource htarget
  · next hnot =>
    refine iff_of_true (isAnswered_error rfl) ?_
    rintro ⟨fields, _, _, rfl, -⟩
    exact hnot fields rfl

/-- The diagram of the nodes of a snapshot. -/
def ofNodes (value : Value) : Except Error Diagram := do
  let nodes ← items value "nodes"
  let options ← Payload.options (value.field "layout") Options.standard
  nodes.foldlM addNode
    { nodes := []
      edges := []
      options := options
      width := (value.field "width").orElse (.int 0)
      height := (value.field "height").orElse (.int 0) }

/-- A snapshot is read nodes first, then edge by edge. -/
theorem diagram_eq {fields : Table Value} {edges : List Value}
    (h : items (.record fields) "edges" = .ok edges) :
    diagram (.record fields) = ofNodes (.record fields) >>= edges.foldlM (addEdge Value.same) := by
  unfold diagram diagramBy ofNodes
  dsimp only
  rw [h]
  cases items (.record fields) "nodes" with
  | error e => rfl
  | ok nodes =>
    cases Payload.options ((Value.record fields).field "layout") Options.standard with
    | error e => rfl
    | ok options => rfl

theorem isAnswered_ofNodes (value : Value) : IsAnswered (ofNodes value) := by
  refine (isAnswered_items _ _).bind fun nodes _ => ?_
  refine (Payload.isAnswered_options _ _).bind fun options _ => ?_
  exact isAnswered_foldlM_iff.2 fun _ node _ d _ _ => isAnswered_addNode d node

/-- A snapshot with an edge that is misplaced, where the same snapshot with the edges before it
alone is read. -/
def Misreads (value : Value) : Prop :=
  ∃ fields before edge after d, value = .record fields ∧
    value.field "edges" = .list (before ++ edge :: after) ∧
    diagram (.record (Table.put fields "edges" (.list before))) = .ok d ∧ Misplaces edge

theorem diagram_put_edges (fields : Table Value) (edges : List Value) :
    diagram (.record (fields.put "edges" (.list edges)))
      = ofNodes (.record fields) >>= edges.foldlM (addEdge Value.same) := by
  have hedges : (Value.record (fields.put "edges" (.list edges))).field "edges" = .list edges := by
    rw [Value.field, Table.get?_put_self]
    rfl
  have hothers : ∀ key, key ≠ "edges" →
      (Value.record (fields.put "edges" (.list edges))).field key
        = (Value.record fields).field key := by
    intro key hkey
    rw [Value.field, Value.field, Table.get?_put_of_ne _ _ hkey]
  rw [diagram_eq (items_list hedges)]
  simp only [ofNodes, items, hothers _ (by decide : "nodes" ≠ "edges"),
    hothers _ (by decide : "layout" ≠ "edges"), hothers _ (by decide : "width" ≠ "edges"),
    hothers _ (by decide : "height" ≠ "edges")]

/-- The reading of a snapshot is answered unless it comes to an edge that is misplaced. -/
theorem isAnswered_diagram_iff (value : Value) : IsAnswered (diagram value) ↔ ¬ Misreads value := by
  cases value with
  | record fields =>
    cases hedges : items (.record fields) "edges" with
    | error e =>
      refine iff_of_true ?_ ?_
      · refine (isAnswered_items _ _).bind fun nodes _ => ?_
        refine (isAnswered_items _ _).bind fun edges hfound => ?_
        rw [hedges] at hfound
        cases hfound
      · rintro ⟨_, before, edge, after, d, ⟨⟩, hfield, -⟩
        rw [items_list hfield] at hedges
        cases hedges
    | ok edges =>
      rw [diagram_eq hedges]
      constructor
      · rintro hanswered ⟨_, before, edge, after, d, ⟨⟩, hfield, hread, hmisplaces⟩
        rw [items_list hfield] at hedges
        cases hedges
        rw [diagram_put_edges] at hread
        obtain ⟨start, hstart, hbefore⟩ := bind_eq_ok.1 hread
        rw [hstart] at hanswered
        have hedge := isAnswered_foldlM_iff.1 hanswered before edge after d rfl hbefore
        exact (isAnswered_addEdge_iff _ d edge).1 hedge hmisplaces
      · intro hnot
        refine (isAnswered_ofNodes _).bind fun start hstart => ?_
        refine isAnswered_foldlM_iff.2 fun before edge after d hsplit hbefore => ?_
        refine (isAnswered_addEdge_iff _ d edge).2 fun hmisplaces => hnot ?_
        have hsome : edges ≠ [] := by
          rw [hsplit]
          exact List.append_ne_nil_of_right_ne_nil _ (List.cons_ne_nil _ _)
        refine ⟨fields, before, edge, after, d, rfl, ?_, ?_, hmisplaces⟩
        · rw [← hsplit]
          exact field_of_items hedges hsome
        · rw [diagram_put_edges, hstart]
          exact hbefore
  | _ =>
    refine iff_of_true (isAnswered_error rfl) ?_
    rintro ⟨_, _, _, _, _, ⟨⟩, -⟩

end BlockDiagram.Snapshot
