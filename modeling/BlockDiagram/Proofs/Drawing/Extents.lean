import BlockDiagram.Drawing
import BlockDiagram.Outcome
import BlockDiagram.Proofs.Value.Halves

/-!
# Extents of whole sizes

The thickness and span of a rank, and the depth and breadth of all ranks, when sizes and spacings
are whole numbers, as such or in floating point.

* `Value.IsExtent`, `Value.IsSpacing`: sizes and spacings that are whole.
* `extentLimit`, `spacingLimit`: what extents of a drawing and spacings stay below.
* `Options.Measured`, `Drawing.Measured`: whole numbers, and extents that are bounded.
* `Drawing.Roomy`: the same with spacings that may be of any size if nothing uses them.
* `Drawing.exists_thickness`, `Drawing.exists_span`: the extents of a rank.
* `Drawing.depthOf_le_sum`, `Drawing.breadthOf_le_sum`: ranks take no more room than their boxes.
* `Drawing.Roomy.exists_extents`: the extents of all ranks.
-/

namespace BlockDiagram

open Outcome Value

/-! ## Extents -/

/-- The natural number that a value is, as such or in floating point; zero for any other value. -/
def Value.extent : Value → Nat
  | .int n => n.toNat
  | .float (.rational q) => q.floor.toNat
  | _ => 0

/-- Whether a value is a natural number, as such or in floating point. -/
def Value.IsExtent (v : Value) : Prop := v.IsWhole v.extent

/-- Whether a value is a natural number that any number of boxes may be apart by. Zero in floating
point is left out, since the number of boxes is then turned into floating point as well and may be
too large for that. -/
def Value.IsSpacing (v : Value) : Prop := v.IsExtent ∧ v ≠ .float (.rational 0)

theorem Value.isExtent_int (n : Nat) : (Value.int n).IsExtent := .inl rfl

theorem Value.isSpacing_int (n : Nat) : (Value.int n).IsSpacing := ⟨isExtent_int n, nofun⟩

theorem Value.isExtent_float (n : Nat) : (Value.float (.rational n)).IsExtent := by
  have hfloor : (n : Rat).floor = n := Rat.floor_intCast n
  right
  rw [extent, hfloor, Int.toNat_natCast]
  rfl

theorem Value.isSpacing_float {n : Nat} (h : n ≠ 0) : (Value.float (.rational n)).IsSpacing := by
  refine ⟨isExtent_float n, fun hzero => h ?_⟩
  injection hzero with hzero
  injection hzero with hzero
  exact_mod_cast hzero

/-- So many times a spacing, if there is room for them. -/
theorem Value.IsSpacing.exists_times {v : Value} (h : v.IsSpacing) {k : Nat}
    (hroom : v.extent * k < 2 ^ 52) :
    ∃ u, v.times k = .ok u ∧ u.IsWhole (v.extent * k : Nat) := by
  obtain ⟨hwhole, hzero⟩ := h
  by_cases hk : k < 2 ^ 52
  · exact Value.exists_times hwhole hk hroom
  · rcases hwhole with hint | hfloat
    · rw [hint]
      exact ⟨_, rfl, .inl rfl⟩
    · -- the spacing is not zero, so there is no room for that many
      have hpos : v.extent ≠ 0 := by
        intro hextent
        rw [hextent] at hfloat
        exact hzero hfloat
      have hle : 1 * k ≤ v.extent * k := Nat.mul_le_mul_right _ (by omega)
      omega

/-- What no extent of a drawing reaches: with margins and spacings added, its double still has no
more than 53 bits. -/
def extentLimit : Nat := 2 ^ 50

/-- The bits that spacings have at most. With a size added to it, such a spacing still has a nearest
number in floating point. -/
@[irreducible]
def spacingBits : Nat := 1000

theorem spacingBits_bounds : 52 ≤ spacingBits ∧ spacingBits + 1 < 1024 := by
  rw [spacingBits]
  decide

/-- What no spacing reaches. -/
def spacingLimit : Nat := 2 ^ spacingBits

theorem le_spacingLimit {n : Nat} (h : n ≤ 2 ^ 52) : n ≤ spacingLimit :=
  Nat.le_trans h (Nat.pow_le_pow_right (by decide) spacingBits_bounds.1)

/-- Whether a value is a natural number below the limit. -/
def Value.IsBounded (v : Value) : Prop := v.IsExtent ∧ v.extent < extentLimit

theorem Value.isBounded_int {n : Nat} (h : n < extentLimit) : (Value.int n).IsBounded :=
  ⟨isExtent_int n, h⟩

/-- Spacings and margins are natural numbers below their limits. The step past the last box is added
up too, so even a spacing that no two boxes are apart by has a limit, but that is a larger one. -/
structure Options.Measured (options : Options) : Prop where
  nodeSpacing : options.nodeSpacing.IsSpacing
  rankSpacing : options.rankSpacing.IsSpacing
  nodeSpacing_lt : options.nodeSpacing.extent < spacingLimit
  rankSpacing_lt : options.rankSpacing.extent < spacingLimit
  marginX : options.marginX.IsBounded
  marginY : options.marginY.IsBounded

theorem Options.measured_standard : Options.standard.Measured where
  nodeSpacing := isSpacing_int 70
  rankSpacing := isSpacing_int 100
  nodeSpacing_lt := le_spacingLimit (by decide)
  rankSpacing_lt := le_spacingLimit (by decide)
  marginX := isBounded_int (n := 20) (by decide)
  marginY := isBounded_int (n := 20) (by decide)

namespace Drawing

/-- The thickness of a rank of boxes with whole sizes. -/
def thicknessOf (row : List Box) : Nat := (row.map fun box => box.along.extent).foldl max 0

/-- The span of a rank of boxes with whole sizes. -/
def spanOf (gap : Nat) (row : List Box) : Nat :=
  (row.map fun box => box.across.extent).sum + gap * (row.length - 1)

/-- The extent of ranks one behind another. -/
def depthOf (gap : Nat) (rows : List (List Box)) : Nat :=
  (rows.map thicknessOf).sum + gap * (rows.length - 1)

/-- The greatest span of some ranks. -/
def breadthOf (gap : Nat) (rows : List (List Box)) : Nat := (rows.map (spanOf gap)).foldl max 0

/-- The ids of the boxes on each rank. -/
def ids (rows : List (List Box)) : List (List String) := rows.map fun row => row.map Box.id

/-- Ranks hold boxes of whole sizes, and their extents stay below the limit. -/
structure Measured (options : Options) (rows : List (List Box)) : Prop where
  spacings : options.Measured
  whole : ∀ row ∈ rows, ∀ box ∈ row, box.along.IsExtent ∧ box.across.IsExtent
  filled : ∀ row ∈ rows, row ≠ []
  depth : depthOf options.rankSpacing.extent rows < extentLimit
  breadth : breadthOf options.nodeSpacing.extent rows < extentLimit

/-- The same without limits for spacings, except where two boxes or ranks are apart by them. -/
structure Roomy (options : Options) (rows : List (List Box)) : Prop where
  nodeSpacing : options.nodeSpacing.IsSpacing
  rankSpacing : options.rankSpacing.IsSpacing
  marginX : options.marginX.IsBounded
  marginY : options.marginY.IsBounded
  whole : ∀ row ∈ rows, ∀ box ∈ row, box.along.IsExtent ∧ box.across.IsExtent
  filled : ∀ row ∈ rows, row ≠ []
  depth : depthOf options.rankSpacing.extent rows < extentLimit
  breadth : breadthOf options.nodeSpacing.extent rows < extentLimit

variable {options : Options} {rows : List (List Box)} {row : List Box}

theorem Measured.roomy (h : Measured options rows) : Roomy options rows :=
  ⟨h.spacings.nodeSpacing, h.spacings.rankSpacing, h.spacings.marginX, h.spacings.marginY,
    h.whole, h.filled, h.depth, h.breadth⟩

theorem spanOf_cons_cons (gap : Nat) (box next : Box) (rest : List Box) :
    spanOf gap (box :: next :: rest) = box.across.extent + gap + spanOf gap (next :: rest) := by
  simp only [spanOf, List.map_cons, List.sum_cons, List.length_cons, Nat.add_sub_cancel]
  ring

theorem depthOf_cons_cons (gap : Nat) (row next : List Box) (rest : List (List Box)) :
    depthOf gap (row :: next :: rest) = thicknessOf row + gap + depthOf gap (next :: rest) := by
  simp only [depthOf, List.map_cons, List.sum_cons, List.length_cons, Nat.add_sub_cancel]
  ring

/-! ## One rank -/

theorem areWhole_map {side : Box → Value} (h : ∀ box ∈ row, (side box).IsExtent) :
    AreWhole (row.map side) (row.map fun box => (side box).extent) := by
  induction row with
  | nil => exact .nil
  | cons box rest ih =>
    obtain ⟨hbox, hrest⟩ := List.forall_mem_cons.1 h
    exact .cons hbox (ih hrest)

theorem exists_greatestOf {vs : List Value} {ns : List Nat} (h : AreWhole vs ns) :
    ∃ u, greatestOf vs = .ok u ∧ u.IsWhole (ns.foldl max 0 : Nat) := by
  cases h with
  | nil => exact ⟨.int 0, rfl, .inl rfl⟩
  | cons hfirst hrest =>
    rw [List.foldl_cons, Nat.zero_max]
    exact exists_greatest hrest hfirst

theorem exists_thickness (h : ∀ box ∈ row, box.along.IsExtent) :
    ∃ u, thickness row = .ok u ∧ u.IsWhole (thicknessOf row) :=
  exists_greatestOf (areWhole_map h)

theorem exists_span (hgap : options.nodeSpacing.IsSpacing) (h : ∀ box ∈ row, box.across.IsExtent)
    (hrow : row ≠ []) (hlimit : spanOf options.nodeSpacing.extent row < extentLimit) :
    ∃ u, span options row = .ok u ∧ u.IsWhole (spanOf options.nodeSpacing.extent row) := by
  have hlength : (row.length : Int) - 1 = ((row.length - 1 : Nat) : Int) := by
    have hpos := List.length_pos_iff.2 hrow
    omega
  rw [spanOf, extentLimit] at hlimit
  obtain ⟨extents, hextents, hwhole⟩ := exists_sum (areWhole_map h) (by omega)
  obtain ⟨gaps, hgaps, hwhole'⟩ := hgap.exists_times (k := row.length - 1) (by omega)
  obtain ⟨total, htotal, hwhole''⟩ := exists_add_whole hwhole hwhole' (by omega)
  refine ⟨total, ?_, hwhole''⟩
  rw [span, hlength]
  simp only [hextents, hgaps, htotal, bind, Except.bind]

theorem span_le_breadthOf (gap : Nat) (h : row ∈ rows) : spanOf gap row ≤ breadthOf gap rows := by
  have hmem : spanOf gap row ∈ 0 :: rows.map (spanOf gap) :=
    List.mem_cons_of_mem 0 (List.mem_map_of_mem h)
  exact (List.max?_le_iff List.max?_cons').1 (Nat.le_refl _) _ hmem

theorem along_le_thicknessOf {box : Box} (h : box ∈ row) : box.along.extent ≤ thicknessOf row := by
  have hmem : box.along.extent ∈ 0 :: row.map fun box => box.along.extent :=
    List.mem_cons_of_mem 0 (List.mem_map_of_mem h)
  exact (List.max?_le_iff List.max?_cons').1 (Nat.le_refl _) _ hmem

theorem thicknessOf_le_sum (row : List Box) :
    thicknessOf row ≤ (row.map fun box => box.along.extent).sum := by
  rw [thicknessOf]
  refine (List.max?_le_iff List.max?_cons').2 fun n hn => ?_
  rcases List.mem_cons.1 hn with rfl | hn
  · exact Nat.zero_le _
  · exact List.le_sum_of_mem hn

theorem sum_across_add_gap (gap : Nat) (hrow : row ≠ []) :
    (row.map fun box => box.across.extent + gap).sum = spanOf gap row + gap := by
  have hlength : row.length = row.length - 1 + 1 := by
    have hpos := List.length_pos_iff.2 hrow
    omega
  have hgaps : row.length * gap = gap * (row.length - 1) + gap := by
    rw [Nat.mul_comm, hlength]
    rfl
  rw [List.sum_map_add, List.map_const', List.sum_replicate_nat, hgaps, spanOf, Nat.add_assoc]

theorem sum_thickness_add_gap_le (gap : Nat) (rows : List (List Box)) :
    (rows.map fun row => thicknessOf row + gap).sum ≤ depthOf gap rows + gap := by
  have hgaps : rows.length * gap ≤ gap * (rows.length - 1) + gap := by
    rw [Nat.mul_comm, ← Nat.mul_succ]
    exact Nat.mul_le_mul_left gap (by omega)
  rw [List.sum_map_add, List.map_const', List.sum_replicate_nat, depthOf]
  omega

/-- Ranks are no deeper than all their boxes one behind another, each with a gap. -/
theorem depthOf_le_sum (gap : Nat) (hfilled : ∀ row ∈ rows, row ≠ []) :
    depthOf gap rows ≤ (rows.flatten.map fun box => box.along.extent + gap).sum := by
  have hgaps : gap * (rows.length - 1) ≤ rows.length * gap := by
    rw [Nat.mul_comm]
    exact Nat.mul_le_mul_right gap (Nat.sub_le _ _)
  have hrows : depthOf gap rows ≤ (rows.map fun row => thicknessOf row + gap).sum := by
    rw [List.sum_map_add, List.map_const', List.sum_replicate_nat, depthOf]
    omega
  refine Nat.le_trans hrows ?_
  clear hgaps hrows
  induction rows with
  | nil => exact Nat.le_refl 0
  | cons row rest ih =>
    rw [List.forall_mem_cons] at hfilled
    have hrow : thicknessOf row + gap ≤ (row.map fun box => box.along.extent + gap).sum := by
      have hthickness := thicknessOf_le_sum row
      have hgap := Nat.mul_le_mul_right gap (List.length_pos_iff.2 hfilled.1)
      rw [List.sum_map_add, List.map_const', List.sum_replicate_nat]
      omega
    rw [List.map_cons, List.sum_cons, List.flatten_cons, List.map_append, List.sum_append]
    exact Nat.add_le_add hrow (ih hfilled.2)

/-- Ranks are no broader than all their boxes side by side, each with a gap. -/
theorem breadthOf_le_sum (gap : Nat) (hfilled : ∀ row ∈ rows, row ≠ []) :
    breadthOf gap rows ≤ (rows.flatten.map fun box => box.across.extent + gap).sum := by
  rw [breadthOf]
  refine (List.max?_le_iff List.max?_cons').2 fun n hn => ?_
  rcases List.mem_cons.1 hn with rfl | hn
  · exact Nat.zero_le _
  · obtain ⟨row, hrow, rfl⟩ := List.mem_map.1 hn
    have hspan := sum_across_add_gap gap (hfilled row hrow)
    obtain ⟨before, after, rfl⟩ := List.append_of_mem hrow
    simp only [List.flatten_append, List.flatten_cons, List.map_append, List.sum_append]
    omega

/-! ## All ranks -/

theorem exists_mapM {α : Type} {f : α → Except Fault Value} {size : α → Nat} {items : List α}
    (h : ∀ a ∈ items, ∃ u, f a = .ok u ∧ u.IsWhole (size a)) :
    ∃ us, items.mapM f = .ok us ∧ AreWhole us (items.map size) := by
  induction items with
  | nil => exact ⟨[], rfl, .nil⟩
  | cons a rest ih =>
    obtain ⟨⟨u, hu, hwhole⟩, hrest⟩ := List.forall_mem_cons.1 h
    obtain ⟨us, hus, hwholes⟩ := ih hrest
    refine ⟨u :: us, ?_, .cons hwhole hwholes⟩
    rw [List.mapM_cons, hu, hus]
    rfl

variable (h : Roomy options rows)
include h

theorem Roomy.exists_thicknesses : ∃ us, rows.mapM thickness = .ok us ∧
    AreWhole us (rows.map thicknessOf) :=
  exists_mapM fun row hrow => exists_thickness fun box hbox => (h.whole row hrow box hbox).1

theorem Roomy.exists_spans : ∃ us, rows.mapM (span options) = .ok us ∧
    AreWhole us (rows.map (spanOf options.nodeSpacing.extent)) :=
  exists_mapM fun row hrow => exists_span h.nodeSpacing
    (fun box hbox => (h.whole row hrow box hbox).2) (h.filled row hrow)
    (Nat.lt_of_le_of_lt (span_le_breadthOf _ hrow) h.breadth)

/-- The depth and the breadth of rows, from their thicknesses and spans. -/
theorem Roomy.exists_extents {thicknesses spans : List Value}
    (hthicknesses : AreWhole thicknesses (rows.map thicknessOf))
    (hspans : AreWhole spans (rows.map (spanOf options.nodeSpacing.extent))) :
    ∃ total gaps depth breadth, Value.sum thicknesses = .ok total ∧
      options.rankSpacing.times ((rows.length - 1 : Nat) : Int) = .ok gaps ∧
      total.add gaps = .ok depth ∧ greatestOf spans = .ok breadth ∧
      depth.IsWhole (depthOf options.rankSpacing.extent rows) ∧
      breadth.IsWhole (breadthOf options.nodeSpacing.extent rows) := by
  have hlimit := h.depth
  rw [depthOf, extentLimit] at hlimit
  obtain ⟨total, htotal, hwhole⟩ := exists_sum hthicknesses (by omega)
  obtain ⟨gaps, hgaps, hwhole'⟩ := h.rankSpacing.exists_times (k := rows.length - 1) (by omega)
  obtain ⟨depth, hdepth, hwhole''⟩ := exists_add_whole hwhole hwhole' (by omega)
  obtain ⟨breadth, hbreadth, hgreatest⟩ := exists_greatestOf hspans
  exact ⟨total, gaps, depth, breadth, htotal, hgaps, hdepth, hbreadth, hwhole'', hgreatest⟩

end Drawing

end BlockDiagram
