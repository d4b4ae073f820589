import BlockDiagram.Proofs.Drawing.Rows
import BlockDiagram.Proofs.Drawing.Steps

/-!
# The centres of a drawing

Whatever the sizes and spacings are, a drawing that succeeds has a centre for every node and for
nothing else. So laying out a diagram puts all of its nodes where the drawing has them.

* `Drawing.keys_centres_ofOrdering`: the centres of an ordering are those of its boxes.
* `Diagram.WellFormed.mem_keys_centres`: the centres of a diagram are those of its nodes.
* `Diagram.WellFormed.exists_drawing_of_refreshed`: a diagram that was laid out is where its drawing
  has it.
-/

namespace BlockDiagram

open Outcome

namespace Drawing

variable {options : Options}

theorem keys_rowCentres {main start : Value} {row : List Box} {placed : Table (Int × Int)}
    (h : rowCentres options main start row = .ok placed) : placed.keys = row.map Box.id := by
  induction row generalizing start placed with
  | nil =>
    cases h
    rfl
  | cons box rest ih =>
    obtain ⟨cross, here, next, others, -, -, -, hothers, rfl⟩ := rowCentres_cons_eq_ok.1 h
    rw [Table.keys, List.map_cons, List.map_cons, ← ih hothers]
    rfl

theorem keys_rankCentres {depth breadth start : Value} {row : Row} {placed : Table (Int × Int)}
    (h : rankCentres options depth breadth start row = .ok placed) :
    placed.keys = row.boxes.map Box.id := by
  obtain ⟨main, cross, -, -, hrow⟩ := rankCentres_eq_ok.1 h
  exact keys_rowCentres hrow

theorem keys_placeRanks {depth breadth start : Value} {rows : List Row}
    {placed : Table (Int × Int)} (h : placeRanks options depth breadth start rows = .ok placed) :
    placed.keys = (rows.flatMap Row.boxes).map Box.id := by
  induction rows generalizing start placed with
  | nil =>
    cases h
    rfl
  | cons row rest ih =>
    obtain ⟨here, next, others, hhere, -, hothers, rfl⟩ := placeRanks_cons_eq_ok.1 h
    rw [List.flatMap_cons, List.map_append, ← keys_rankCentres hhere, ← ih hothers]
    exact List.map_append

/-- The centres of an ordering are those of its boxes. -/
theorem keys_centres_ofOrdering {d : Diagram} {ordering : List (List String)} {drawing : Drawing}
    (h : ofOrdering d options ordering = .ok drawing) :
    drawing.centres.keys = (ids (boxes d options.direction ordering)).flatten := by
  obtain ⟨thicknesses, spans, -, -, depth, breadth, hthicknesses, hspans, -, -, -, -, hplaced, -⟩ :=
    (ofOrdering_eq_ok rfl).1 h
  generalize boxes d options.direction ordering = rows at hthicknesses hspans hplaced ⊢
  -- Every row has a thickness and a span, so none of them is lost when they are put together.
  have hlength : rows.length ≤ (thicknesses.zip spans).length := by
    rw [List.length_zip, length_of_mapM_eq_ok hthicknesses, length_of_mapM_eq_ok hspans,
      Nat.min_self]
  have hrows : (rows.zip (thicknesses.zip spans)).map Prod.fst = rows :=
    List.map_fst_zip hlength
  rw [keys_placeRanks hplaced, rowsWith, List.flatMap_def, List.map_map, ids, ← List.map_flatten]
  exact congrArg (fun rows => rows.flatten.map Box.id) hrows

end Drawing

namespace Diagram

variable {d d' : Diagram} {options : Options}

/-- The centres of a diagram are those of its nodes. -/
theorem WellFormed.mem_keys_centres (hd : d.WellFormed) {drawing : Drawing}
    (h : d.drawing options = .ok drawing) {id : String} :
    id ∈ drawing.centres.keys ↔ id ∈ d.nodes.keys := by
  obtain ⟨l, hl, hordering⟩ := drawing_eq_ok.1 h
  rw [Drawing.keys_centres_ofOrdering hordering, Drawing.ids_boxes_eq_drawn, mem_flatten_drawn hl]
  exact and_iff_left_of_imp fun hid => hd.not_isPlaceholder hid

/-- A diagram is where its drawing has it: every node at its centre, within the bounds. -/
structure IsPlacedBy (d : Diagram) (drawing : Drawing) : Prop where
  width : d.width = .int drawing.width
  height : d.height = .int drawing.height
  node : ∀ id node, d.nodes.get? id = some node →
    ∃ x y, drawing.centres.get? id = some (x, y) ∧ node.x = .int x ∧ node.y = .int y

theorem WellFormed.isPlacedBy_placed (hd : d.WellFormed) {drawing : Drawing}
    (h : d.drawing options = .ok drawing) : (d.placed options drawing).IsPlacedBy drawing := by
  refine ⟨rfl, rfl, fun id node hnode => ?_⟩
  rw [placed, Table.get?_map, Option.map_eq_some_iff] at hnode
  obtain ⟨old, hold, rfl⟩ := hnode
  have hid : id ∈ d.nodes.keys := Table.mem_keys_iff.2 (Option.isSome_iff_exists.2 ⟨old, hold⟩)
  obtain ⟨⟨x, y⟩, hcentre⟩ := Option.isSome_iff_exists.1
    (Table.mem_keys_iff.1 ((hd.mem_keys_centres h).2 hid))
  refine ⟨x, y, hcentre, ?_, ?_⟩ <;> rw [moved, hcentre]

/-- A diagram that is not changed by laying it out is where its drawing has it. -/
theorem WellFormed.exists_drawing_of_refreshed (hd : d.WellFormed) (h : d.refreshed = .ok d) :
    ∃ drawing, d.drawing d.options = .ok drawing ∧ d.IsPlacedBy drawing := by
  rw [refreshed, Diagram.laidOut] at h
  split at h
  · next drawing hdrawing =>
    refine ⟨drawing, hdrawing, ?_⟩
    have hplaced := hd.isPlacedBy_placed hdrawing
    rwa [Except.ok.inj h] at hplaced
  · cases h

end Diagram

end BlockDiagram
