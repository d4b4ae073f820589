import BlockDiagram.Drawing
import BlockDiagram.Outcome

/-!
# The steps of a drawing

A drawing succeeds exactly if each of its steps does.

* `Drawing.centre_eq_ok`: the centre of a box.
* `Drawing.rowCentres_cons_eq_ok`, `Drawing.rankCentres_eq_ok`: the centres of a rank.
* `Drawing.placeRanks_cons_eq_ok`: the centres of all ranks.
* `Drawing.ofOrdering_eq_ok`, `Diagram.drawing_eq_ok`: the drawing of an ordering and of a diagram.
-/

namespace BlockDiagram.Drawing

open Outcome

variable {options : Options}

theorem centre_eq_ok {main cross : Value} {p : Int × Int} :
    centre options main cross = .ok p ↔
      (options.marginX.add (if options.direction.isHorizontal then main else cross)
        >>= Value.round) = .ok p.1 ∧
      (options.marginY.add (if options.direction.isHorizontal then cross else main)
        >>= Value.round) = .ok p.2 := by
  have hsteps : ∀ right down : Value, (do
      let x ← options.marginX.add right
      let y ← options.marginY.add down
      return (← x.round, ← y.round)) = Except.ok p ↔
      (options.marginX.add right >>= Value.round) = .ok p.1 ∧
        (options.marginY.add down >>= Value.round) = .ok p.2 := by
    intro right down
    simp only [bind_eq_ok]
    constructor
    · rintro ⟨x, hx, y, hy, rx, hrx, ry, hry, hp⟩
      cases hp
      exact ⟨⟨x, hx, hrx⟩, y, hy, hry⟩
    · rintro ⟨⟨x, hx, hrx⟩, y, hy, hry⟩
      exact ⟨x, hx, y, hy, p.1, hrx, p.2, hry, rfl⟩
  rw [centre]
  cases options.direction.isHorizontal <;> exact hsteps _ _

theorem rowCentres_cons_eq_ok {main start : Value} {box : Box} {rest : List Box}
    {placed : Table (Int × Int)} :
    rowCentres options main start (box :: rest) = .ok placed ↔
      ∃ cross here next others, (box.across.half >>= start.add) = .ok cross ∧
        centre options main cross = .ok here ∧
        (box.across.add options.nodeSpacing >>= start.add) = .ok next ∧
        rowCentres options main next rest = .ok others ∧ placed = (box.id, here) :: others := by
  simp only [rowCentres, bind_eq_ok]
  constructor
  · rintro ⟨half, hhalf, cross, hcross, here, hhere, step, hstep, next, hnext, others, hothers, h⟩
    cases h
    exact ⟨cross, here, next, others, ⟨half, hhalf, hcross⟩, hhere, ⟨step, hstep, hnext⟩, hothers,
      rfl⟩
  · rintro ⟨cross, here, next, others, ⟨half, hhalf, hcross⟩, hhere, ⟨step, hstep, hnext⟩, hothers,
      rfl⟩
    exact ⟨half, hhalf, cross, hcross, here, hhere, step, hstep, next, hnext, others, hothers, rfl⟩

theorem rankCentres_eq_ok {depth breadth start : Value} {row : Row}
    {placed : Table (Int × Int)} :
    rankCentres options depth breadth start row = .ok placed ↔
      ∃ main cross, (row.thickness.half >>= start.add >>= alongAxis options depth) = .ok main ∧
        (breadth.sub row.span >>= Value.half) = .ok cross ∧
        rowCentres options main cross row.boxes = .ok placed := by
  simp only [rankCentres, bind_eq_ok]
  constructor
  · rintro ⟨half, hhalf, middle, hmiddle, main, hmain, room, hroom, cross, hcross, h⟩
    exact ⟨main, cross, ⟨middle, ⟨half, hhalf, hmiddle⟩, hmain⟩, ⟨room, hroom, hcross⟩, h⟩
  · rintro ⟨main, cross, ⟨middle, ⟨half, hhalf, hmiddle⟩, hmain⟩, ⟨room, hroom, hcross⟩, h⟩
    exact ⟨half, hhalf, middle, hmiddle, main, hmain, room, hroom, cross, hcross, h⟩

theorem placeRanks_cons_eq_ok {depth breadth start : Value} {row : Row} {rest : List Row}
    {placed : Table (Int × Int)} :
    placeRanks options depth breadth start (row :: rest) = .ok placed ↔
      ∃ here next others, rankCentres options depth breadth start row = .ok here ∧
        (row.thickness.add options.rankSpacing >>= start.add) = .ok next ∧
        placeRanks options depth breadth next rest = .ok others ∧ placed = here ++ others := by
  simp only [placeRanks, bind_eq_ok]
  constructor
  · rintro ⟨here, hhere, step, hstep, next, hnext, others, hothers, h⟩
    cases h
    exact ⟨here, next, others, hhere, ⟨step, hstep, hnext⟩, hothers, rfl⟩
  · rintro ⟨here, next, others, hhere, ⟨step, hstep, hnext⟩, hothers, rfl⟩
    exact ⟨here, hhere, step, hstep, next, hnext, others, hothers, rfl⟩

/-- The rows of a drawing with their thicknesses and spans. -/
def rowsWith (rows : List (List Box)) (thicknesses spans : List Value) : List Row :=
  (rows.zip (thicknesses.zip spans)).map fun (boxes, thickness, span) =>
    Row.mk boxes thickness span

theorem ofOrdering_eq_ok {d : Diagram} {ordering : List (List String)} {drawing : Drawing}
    {rows : List (List Box)} (hrows : boxes d options.direction ordering = rows) :
    ofOrdering d options ordering = .ok drawing ↔
      ∃ thicknesses spans total gaps depth breadth, rows.mapM thickness = .ok thicknesses ∧
        rows.mapM (span options) = .ok spans ∧ Value.sum thicknesses = .ok total ∧
        options.rankSpacing.times ((rows.length - 1 : Nat) : Int) = .ok gaps ∧
        total.add gaps = .ok depth ∧ greatestOf spans = .ok breadth ∧
        placeRanks options depth breadth (.float (.rational 0)) (rowsWith rows thicknesses spans)
          = .ok drawing.centres ∧
        bound (if options.direction.isHorizontal then depth else breadth) options.marginX
          = .ok drawing.width ∧
        bound (if options.direction.isHorizontal then breadth else depth) options.marginY
          = .ok drawing.height ∧
        drawing.ranks
          = rows.zipIdx.flatMap fun (row, rank) => row.map fun box => (box.id, rank) := by
  simp only [ofOrdering, hrows, bind_eq_ok]
  constructor
  · rintro ⟨thicknesses, hthicknesses, spans, hspans, total, htotal, gaps, hgaps, depth, hdepth,
      breadth, hbreadth, placed, hplaced, width, hwidth, height, hheight, h⟩
    cases h
    refine ⟨thicknesses, spans, total, gaps, depth, breadth, hthicknesses, hspans, htotal, hgaps,
      hdepth, hbreadth, hplaced, ?_, ?_, rfl⟩
    · rw [← hwidth]
      split <;> rfl
    · rw [← hheight]
      split <;> rfl
  · rintro ⟨thicknesses, spans, total, gaps, depth, breadth, hthicknesses, hspans, htotal, hgaps,
      hdepth, hbreadth, hplaced, hwidth, hheight, hranks⟩
    refine ⟨thicknesses, hthicknesses, spans, hspans, total, htotal, gaps, hgaps, depth, hdepth,
      breadth, hbreadth, _, hplaced, drawing.width, ?_, drawing.height, ?_, ?_⟩
    · rw [← hwidth]
      split <;> rfl
    · rw [← hheight]
      split <;> rfl
    · rw [← hranks]
      rfl

end BlockDiagram.Drawing

namespace BlockDiagram.Diagram

open Outcome

theorem drawing_eq_ok {d : Diagram} {options : Options} {drawing : Drawing} :
    d.drawing options = .ok drawing ↔
      ∃ l, d.layering = .ok l ∧ Drawing.ofOrdering d options l.ordering = .ok drawing := by
  rw [Diagram.drawing, bind_eq_ok]
  refine exists_congr fun l => and_congr_right fun _ => ?_
  cases Drawing.ofOrdering d options l.ordering <;> simp

end BlockDiagram.Diagram
