import BlockDiagram.Proofs.Drawing.Independence
import BlockDiagram.Proofs.Drawing.Steps

/-!
# The axes exchanged

A direction along the other axis does the same to heights as its counterpart does to widths. So a
diagram is drawn from the top as the diagram with widths and heights exchanged is drawn from the
left, or neither of them is drawn.

* `Direction.transposed`, `Options.transposed`, `Diagram.transposed`, `Drawing.transposed`: the axes
  exchanged.
* `Drawing.boxes_transposed`: the boxes are the same.
* `Diagram.drawing_transposed_iff`: the drawing has its axes exchanged.
-/

namespace BlockDiagram

/-- The direction along the other axis that begins at the same corner. -/
def Direction.transposed : Direction → Direction
  | leftToRight => topToBottom
  | topToBottom => leftToRight
  | rightToLeft => bottomToTop
  | bottomToTop => rightToLeft

def Options.transposed (options : Options) : Options :=
  { options with
    direction := options.direction.transposed
    marginX := options.marginY
    marginY := options.marginX }

def Node.transposed (node : Node) : Node :=
  { node with width := node.height, height := node.width }

/-- The diagram whose nodes have width and height exchanged. -/
def Diagram.transposed (d : Diagram) : Diagram :=
  { d with nodes := d.nodes.map fun (id, node) => (id, node.transposed) }

/-- The drawing with the coordinates of centres and its bounds exchanged. -/
def Drawing.transposed (drawing : Drawing) : Drawing :=
  { drawing with
    centres := drawing.centres.map fun (id, centre) => (id, centre.swap)
    width := drawing.height
    height := drawing.width }

@[simp] theorem Direction.transposed_transposed (direction : Direction) :
    direction.transposed.transposed = direction := by
  cases direction <;> rfl

@[simp] theorem Direction.isHorizontal_transposed (direction : Direction) :
    direction.transposed.isHorizontal = !direction.isHorizontal := by
  cases direction <;> rfl

@[simp] theorem Direction.isReversed_transposed (direction : Direction) :
    direction.transposed.isReversed = direction.isReversed := by
  cases direction <;> rfl

@[simp] theorem Options.transposed_transposed (options : Options) :
    options.transposed.transposed = options := by
  simp [Options.transposed]

@[simp] theorem Diagram.transposed_transposed (d : Diagram) : d.transposed.transposed = d := by
  simp [Diagram.transposed, Node.transposed, Function.comp_def]

@[simp] theorem Drawing.transposed_transposed (drawing : Drawing) :
    drawing.transposed.transposed = drawing := by
  simp [Drawing.transposed, Function.comp_def]

namespace Drawing

variable {options : Options}

/-! ## Centres -/

theorem centre_transposed {main cross : Value} {p : Int × Int}
    (h : centre options main cross = .ok p) :
    centre options.transposed main cross = .ok p.swap := by
  rw [centre_eq_ok] at h ⊢
  simp only [Options.transposed, Direction.isHorizontal_transposed]
  cases hhorizontal : options.direction.isHorizontal
  all_goals
    rw [hhorizontal] at h
    exact h.symm

theorem rowCentres_transposed {main start : Value} {row : List Box} {placed : Table (Int × Int)}
    (h : rowCentres options main start row = .ok placed) :
    rowCentres options.transposed main start row
      = .ok (placed.map fun (id, centre) => (id, centre.swap)) := by
  induction row generalizing start placed with
  | nil =>
    cases h
    rfl
  | cons box rest ih =>
    obtain ⟨cross, here, next, others, hcross, hhere, hnext, hothers, rfl⟩ :=
      rowCentres_cons_eq_ok.1 h
    exact rowCentres_cons_eq_ok.2
      ⟨cross, here.swap, next, _, hcross, centre_transposed hhere, hnext, ih hothers, rfl⟩

theorem rankCentres_transposed {depth breadth start : Value} {row : Row}
    {placed : Table (Int × Int)} (h : rankCentres options depth breadth start row = .ok placed) :
    rankCentres options.transposed depth breadth start row
      = .ok (placed.map fun (id, centre) => (id, centre.swap)) := by
  obtain ⟨main, cross, hmain, hcross, hrow⟩ := rankCentres_eq_ok.1 h
  have haxis : alongAxis options.transposed = alongAxis options := by
    funext depth position
    rw [alongAxis, alongAxis, Options.transposed, Direction.isReversed_transposed]
  exact rankCentres_eq_ok.2 ⟨main, cross, haxis ▸ hmain, hcross, rowCentres_transposed hrow⟩

theorem placeRanks_transposed {depth breadth start : Value} {rows : List Row}
    {placed : Table (Int × Int)} (h : placeRanks options depth breadth start rows = .ok placed) :
    placeRanks options.transposed depth breadth start rows
      = .ok (placed.map fun (id, centre) => (id, centre.swap)) := by
  induction rows generalizing start placed with
  | nil =>
    cases h
    rfl
  | cons row rest ih =>
    obtain ⟨here, next, others, hhere, hnext, hothers, rfl⟩ := placeRanks_cons_eq_ok.1 h
    exact placeRanks_cons_eq_ok.2
      ⟨_, next, _, rankCentres_transposed hhere, hnext, ih hothers, List.map_append⟩

/-! ## Drawings -/

/-- With sizes exchanged as well, boxes have the same extents along the other axis. -/
theorem boxes_transposed (d : Diagram) (direction : Direction) (ordering : List (List String)) :
    boxes d.transposed direction.transposed ordering = boxes d direction ordering := by
  have hbox : ∀ name, (d.transposed.nodes.get? name).map (Box.ofNode direction.transposed name)
      = (d.nodes.get? name).map (Box.ofNode direction name) := by
    intro name
    rw [Diagram.transposed, Table.get?_map, Option.map_map]
    congr 1
    funext node
    cases direction <;> rfl
  simp only [boxes, hbox]

theorem ofOrdering_transposed {d : Diagram} {ordering : List (List String)} {drawing : Drawing}
    (h : ofOrdering d options ordering = .ok drawing) :
    ofOrdering d.transposed options.transposed ordering = .ok drawing.transposed := by
  have hrows : boxes d.transposed options.transposed.direction ordering
      = boxes d options.direction ordering := boxes_transposed d options.direction ordering
  obtain ⟨thicknesses, spans, total, gaps, depth, breadth, hthicknesses, hspans, htotal, hgaps,
    hdepth, hbreadth, hplaced, hwidth, hheight, hranks⟩ := (ofOrdering_eq_ok rfl).1 h
  refine (ofOrdering_eq_ok hrows).2 ⟨thicknesses, spans, total, gaps, depth, breadth, hthicknesses,
    hspans, htotal, hgaps, hdepth, hbreadth, placeRanks_transposed hplaced, ?_, ?_, hranks⟩
  · refine Eq.trans ?_ hheight
    rw [Options.transposed, Direction.isHorizontal_transposed]
    cases options.direction.isHorizontal <;> rfl
  · refine Eq.trans ?_ hwidth
    rw [Options.transposed, Direction.isHorizontal_transposed]
    cases options.direction.isHorizontal <;> rfl

end Drawing

namespace Diagram

theorem layering_transposed (d : Diagram) : d.transposed.layering = d.layering := by
  have hkeys : d.transposed.nodes.keys = d.nodes.keys := Table.keys_map _ d.nodes
  rw [layering, layering, digraph_congr hkeys rfl]

/-- A diagram has a drawing exactly if it has one with the axes exchanged, and that is the drawing
with its axes exchanged. -/
theorem drawing_transposed_iff {d : Diagram} {options : Options} {drawing : Drawing} :
    d.transposed.drawing options.transposed = .ok drawing.transposed ↔
      d.drawing options = .ok drawing := by
  have hto : ∀ {d : Diagram} {options : Options} {drawing : Drawing},
      d.drawing options = .ok drawing →
        d.transposed.drawing options.transposed = .ok drawing.transposed := by
    intro d options drawing h
    obtain ⟨l, hl, hdrawing⟩ := drawing_eq_ok.1 h
    exact drawing_eq_ok.2 ⟨l, d.layering_transposed ▸ hl, Drawing.ofOrdering_transposed hdrawing⟩
  refine ⟨fun h => ?_, hto⟩
  simpa using hto h

end Diagram

end BlockDiagram
