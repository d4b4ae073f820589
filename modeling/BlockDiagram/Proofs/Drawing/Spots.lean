import BlockDiagram.Proofs.Digraph.Path
import BlockDiagram.Proofs.Drawing.Extents

/-!
# Where boxes stand

The places of boxes of whole sizes, before anything is rounded. A spot counts halves, so that the
centre of a box of odd size is a whole number as well. Ranks follow each other along the main axis,
and each of them is centred across it.

* `Drawing.rowSpots`, `Drawing.spots`: the places of a rank's boxes, and those of all ranks.
* `Drawing.le_cross_of_mem_rowSpots`, `Drawing.le_main_of_mem_spots`: boxes keep inside the drawing.
* `Drawing.pairwise_rowSpots`, `Drawing.pairwise_spots`: boxes keep their distance.
* `Drawing.ofRows`: the drawing of rows of boxes.
-/

namespace BlockDiagram.Drawing

open Value

/-- A box with twice the position of its centre, along the main axis and across it, counted from the
side of the first rank and without margins. -/
structure Spot where
  box : Box
  main : Nat
  cross : Nat

/-- The spots of a rank's boxes, from twice the position where the first one begins. -/
def rowSpots (gap main : Nat) : Nat → List Box → List Spot
  | _, [] => []
  | start, box :: rest =>
    ⟨box, main, start + box.across.extent⟩
      :: rowSpots gap main (start + 2 * (box.across.extent + gap)) rest

/-- The spots of all boxes, from twice the position where the first rank begins. -/
def spots (options : Options) (breadth : Nat) : Nat → List (List Box) → List (List Spot)
  | _, [] => []
  | start, row :: rest =>
    rowSpots options.nodeSpacing.extent (start + thicknessOf row)
        (breadth - spanOf options.nodeSpacing.extent row) row
      :: spots options breadth (start + 2 * (thicknessOf row + options.rankSpacing.extent)) rest

variable {gap main start breadth : Nat} {options : Options} {row : List Box}
  {rows : List (List Box)} {spot : Spot}

/-! ## Inside a rank -/

theorem map_box_rowSpots (gap main start : Nat) (row : List Box) :
    (rowSpots gap main start row).map Spot.box = row := by
  induction row generalizing start with
  | nil => rfl
  | cons box rest ih => rw [rowSpots, List.map_cons, ih]

theorem box_mem_of_mem_rowSpots (h : spot ∈ rowSpots gap main start row) : spot.box ∈ row := by
  rw [← map_box_rowSpots gap main start row]
  exact List.mem_map_of_mem h

theorem main_of_mem_rowSpots (h : spot ∈ rowSpots gap main start row) : spot.main = main := by
  induction row generalizing start with
  | nil => cases h
  | cons box rest ih =>
    rw [rowSpots] at h
    rcases List.mem_cons.1 h with rfl | h
    · rfl
    · exact ih h

/-- A box begins where its rank does or later, and leaves room for a gap before the rank's boxes and
gaps end. -/
theorem le_cross_of_mem_rowSpots (h : spot ∈ rowSpots gap main start row) :
    start + spot.box.across.extent ≤ spot.cross ∧
      spot.cross + spot.box.across.extent + 2 * gap
        ≤ start + 2 * (row.map fun box => box.across.extent + gap).sum := by
  induction row generalizing start with
  | nil => cases h
  | cons box rest ih =>
    rw [rowSpots] at h
    rw [List.map_cons, List.sum_cons]
    rcases List.mem_cons.1 h with rfl | h
    · dsimp only
      omega
    · have hrest := ih h
      omega

/-- Each box is followed by a gap. -/
theorem pairwise_rowSpots (gap main start : Nat) (row : List Box) :
    (rowSpots gap main start row).Pairwise fun a b =>
      a.cross + a.box.across.extent + b.box.across.extent + 2 * gap ≤ b.cross := by
  induction row generalizing start with
  | nil => exact .nil
  | cons box rest ih =>
    rw [rowSpots]
    refine .cons (fun b hb => ?_) (ih _)
    have hfirst := (le_cross_of_mem_rowSpots hb).1
    dsimp only
    omega

/-! ## Rank behind rank -/

theorem map_box_spots (options : Options) (breadth start : Nat) (rows : List (List Box)) :
    (spots options breadth start rows).map (fun row => row.map Spot.box) = rows := by
  induction rows generalizing start with
  | nil => rfl
  | cons row rest ih => rw [spots, List.map_cons, ih, map_box_rowSpots]

/-- The spots of a rank are those of one row, wherever that row begins. -/
theorem exists_rowSpots_of_mem_spots {spotRow : List Spot}
    (h : spotRow ∈ spots options breadth start rows) :
    ∃ row ∈ rows, ∃ main, spotRow = rowSpots options.nodeSpacing.extent main
      (breadth - spanOf options.nodeSpacing.extent row) row := by
  induction rows generalizing start with
  | nil => cases h
  | cons row rest ih =>
    rw [spots] at h
    rcases List.mem_cons.1 h with rfl | h
    · exact ⟨row, List.mem_cons_self, _, rfl⟩
    · obtain ⟨other, hother, hspots⟩ := ih h
      exact ⟨other, List.mem_cons_of_mem _ hother, hspots⟩

/-- Across the main axis every box keeps inside the breadth of a drawing. -/
theorem cross_of_mem_spots (hfilled : ∀ row ∈ rows, row ≠ [])
    (hspan : ∀ row ∈ rows, spanOf options.nodeSpacing.extent row ≤ breadth) {spotRow : List Spot}
    (hrow : spotRow ∈ spots options breadth start rows) (h : spot ∈ spotRow) :
    spot.box.across.extent ≤ spot.cross ∧
      spot.cross + spot.box.across.extent ≤ 2 * breadth := by
  obtain ⟨row, hmem, main, rfl⟩ := exists_rowSpots_of_mem_spots hrow
  have hbounds := le_cross_of_mem_rowSpots h
  have hsum := sum_across_add_gap options.nodeSpacing.extent (hfilled row hmem)
  have hroom := hspan row hmem
  omega

/-- A box begins where the first rank does or later, and leaves room for a gap before all ranks and
gaps end. -/
theorem le_main_of_mem_spots {spotRow : List Spot}
    (hrow : spotRow ∈ spots options breadth start rows) (h : spot ∈ spotRow) :
    start + spot.box.along.extent ≤ spot.main ∧
      spot.main + spot.box.along.extent + 2 * options.rankSpacing.extent
        ≤ start + 2 * (rows.map fun row => thicknessOf row + options.rankSpacing.extent).sum := by
  induction rows generalizing start with
  | nil => cases hrow
  | cons row rest ih =>
    rw [spots] at hrow
    rw [List.map_cons, List.sum_cons]
    rcases List.mem_cons.1 hrow with rfl | hrow
    · have hthickness := along_le_thicknessOf (box_mem_of_mem_rowSpots h)
      have hmain := main_of_mem_rowSpots h
      omega
    · have hrest := ih hrow
      omega

/-- Along the main axis every box keeps inside the depth of a drawing. -/
theorem main_of_mem_spots {spotRow : List Spot}
    (hrow : spotRow ∈ spots options breadth 0 rows) (h : spot ∈ spotRow) :
    spot.box.along.extent ≤ spot.main ∧ spot.main + spot.box.along.extent
      ≤ 2 * depthOf options.rankSpacing.extent rows := by
  have hbounds := le_main_of_mem_spots hrow h
  have hsum := sum_thickness_add_gap_le options.rankSpacing.extent rows
  omega

/-- Each rank is followed by a gap. -/
theorem pairwise_spots (options : Options) (breadth start : Nat) (rows : List (List Box)) :
    (spots options breadth start rows).Pairwise fun before after => ∀ a ∈ before, ∀ b ∈ after,
      a.main + a.box.along.extent + b.box.along.extent + 2 * options.rankSpacing.extent
        ≤ b.main := by
  induction rows generalizing start with
  | nil => exact .nil
  | cons row rest ih =>
    rw [spots]
    refine .cons (fun after hafter a ha b hb => ?_) (ih _)
    have hthickness := along_le_thicknessOf (box_mem_of_mem_rowSpots ha)
    have hmain := main_of_mem_rowSpots ha
    have hfirst := (le_main_of_mem_spots hafter hb).1
    omega

/-! ## Drawings of rows -/

/-- Twice a position along the main axis, counted from the far end if the direction is reversed. -/
def onAxis (options : Options) (depth main : Nat) : Int :=
  if options.direction.isReversed then 2 * depth - main else main

/-- A position with a margin before it, rounded, from twice that position. -/
def beyond (margin : Value) (position : Int) : Int := roundedHalf (2 * margin.extent + position)

/-- The centre of a spot in a drawing of some depth, margins added and rounded. -/
def Spot.centre (options : Options) (depth : Nat) (spot : Spot) : Int × Int :=
  if options.direction.isHorizontal then
    (beyond options.marginX (onAxis options depth spot.main), beyond options.marginY spot.cross)
  else
    (beyond options.marginX spot.cross, beyond options.marginY (onAxis options depth spot.main))

/-- An extent with a margin on either side. -/
def framed (margin : Value) (extent : Nat) : Int := extent + 2 * margin.extent

/-- The drawing of rows of boxes of whole sizes. -/
def ofRows (options : Options) (rows : List (List Box)) : Drawing :=
  let depth := depthOf options.rankSpacing.extent rows
  let breadth := breadthOf options.nodeSpacing.extent rows
  { ranks := Digraph.numbered (ids rows)
    centres := (spots options breadth 0 rows).flatten.map fun spot =>
      (spot.box.id, spot.centre options depth)
    width := framed options.marginX (if options.direction.isHorizontal then depth else breadth)
    height := framed options.marginY (if options.direction.isHorizontal then breadth else depth) }

theorem flatten_ids_spots (options : Options) (breadth start : Nat) (rows : List (List Box)) :
    (spots options breadth start rows).flatten.map (fun spot => spot.box.id)
      = (ids rows).flatten := by
  have hboxes := congrArg List.flatten (map_box_spots options breadth start rows)
  rw [← List.map_flatten] at hboxes
  rw [ids, ← List.map_flatten, ← hboxes, List.map_map]
  rfl

theorem ranks_ofRows (options : Options) (rows : List (List Box)) :
    (ofRows options rows).ranks = Digraph.numbered (ids rows) := rfl

theorem width_ofRows (options : Options) (rows : List (List Box)) :
    (ofRows options rows).width = framed options.marginX
      (if options.direction.isHorizontal then depthOf options.rankSpacing.extent rows
        else breadthOf options.nodeSpacing.extent rows) := rfl

theorem height_ofRows (options : Options) (rows : List (List Box)) :
    (ofRows options rows).height = framed options.marginY
      (if options.direction.isHorizontal then breadthOf options.nodeSpacing.extent rows
        else depthOf options.rankSpacing.extent rows) := rfl

theorem keys_centres_ofRows (options : Options) (rows : List (List Box)) :
    (ofRows options rows).centres.keys = (ids rows).flatten := by
  rw [← flatten_ids_spots options (breadthOf options.nodeSpacing.extent rows) 0, Table.keys, ofRows,
    List.map_map]
  rfl

end BlockDiagram.Drawing
