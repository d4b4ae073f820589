import BlockDiagram.Proofs.Drawing.Placing
import BlockDiagram.Proofs.Drawing.Steps

/-!
# Spacings that nothing uses

Without a rank of two boxes no boxes are apart by the spacing of nodes, and without two ranks none
by that of ranks. The step past the last box is still added up, so such a spacing can be too large
for a drawing, but wherever there is a drawing it does not count.

* `Drawing.SpacedAlike`: options that agree but for spacings that nothing uses.
* `Drawing.placeRanks_congr`, `Drawing.SpacedAlike.ofRows_eq`: boxes are placed alike.
* `Drawing.Roomy.eq_ofRows`: if there is room for all boxes, a drawing has them on their spots.
-/

namespace BlockDiagram

open Outcome

namespace Drawing

/-- Options that agree but for spacings that rows make no use of. -/
structure SpacedAlike (rows : List (List Box)) (options others : Options) : Prop where
  direction : options.direction = others.direction
  marginX : options.marginX = others.marginX
  marginY : options.marginY = others.marginY
  nodeSpacing : options.nodeSpacing = others.nodeSpacing ∨ ∀ row ∈ rows, row.length ≤ 1
  rankSpacing : options.rankSpacing = others.rankSpacing ∨ rows.length ≤ 1

variable {options others : Options} {rows : List (List Box)} {row : List Box}

theorem SpacedAlike.tail (h : SpacedAlike (row :: rows) options others) :
    SpacedAlike rows options others where
  direction := h.direction
  marginX := h.marginX
  marginY := h.marginY
  nodeSpacing := h.nodeSpacing.imp_right fun hsingle => (List.forall_mem_cons.1 hsingle).2
  rankSpacing := h.rankSpacing.imp_right fun hone => Nat.le_trans (Nat.le_succ _) hone

theorem SpacedAlike.centre_eq (h : SpacedAlike rows options others) :
    centre options = centre others := by
  funext main cross
  rw [centre, centre, h.direction, h.marginX, h.marginY]

theorem SpacedAlike.alongAxis_eq (h : SpacedAlike rows options others) :
    alongAxis options = alongAxis others := by
  funext depth position
  rw [alongAxis, alongAxis, h.direction]

/-! ## Placing -/

theorem rowCentres_congr (hcentre : centre options = centre others)
    (hgap : options.nodeSpacing = others.nodeSpacing ∨ row.length ≤ 1) {main start : Value}
    {placed placed' : Table (Int × Int)} (h : rowCentres options main start row = .ok placed)
    (h' : rowCentres others main start row = .ok placed') : placed = placed' := by
  induction row generalizing start placed placed' with
  | nil => exact Except.ok.inj (h.symm.trans h')
  | cons box rest ih =>
    obtain ⟨cross, here, next, placedRest, hcross, hhere, hnext, hrest, rfl⟩ :=
      rowCentres_cons_eq_ok.1 h
    obtain ⟨cross', here', next', placedRest', hcross', hhere', hnext', hrest', rfl⟩ :=
      rowCentres_cons_eq_ok.1 h'
    cases hcross.symm.trans hcross'
    rw [hcentre] at hhere
    cases hhere.symm.trans hhere'
    congr 1
    rcases hgap with hgap | hsingle
    · rw [hgap] at hnext
      cases hnext.symm.trans hnext'
      exact ih (.inl hgap) hrest hrest'
    · -- past a single box nothing is left to be placed
      obtain rfl : rest = [] := List.length_eq_zero_iff.1 (by simpa using hsingle)
      exact Except.ok.inj (hrest.symm.trans hrest')

theorem rankCentres_congr (h : SpacedAlike rows options others) {row : Row}
    (hgap : options.nodeSpacing = others.nodeSpacing ∨ row.boxes.length ≤ 1)
    {depth breadth start : Value} {placed placed' : Table (Int × Int)}
    (hplaced : rankCentres options depth breadth start row = .ok placed)
    (hplaced' : rankCentres others depth breadth start row = .ok placed') : placed = placed' := by
  obtain ⟨main, cross, hmain, hcross, hrow⟩ := rankCentres_eq_ok.1 hplaced
  obtain ⟨main', cross', hmain', hcross', hrow'⟩ := rankCentres_eq_ok.1 hplaced'
  rw [h.alongAxis_eq] at hmain
  cases hmain.symm.trans hmain'
  cases hcross.symm.trans hcross'
  exact rowCentres_congr h.centre_eq hgap hrow hrow'

/-- Spacings that nothing uses do not count for the centres of two placings that both succeed. -/
theorem placeRanks_congr {rows : List Row}
    (h : SpacedAlike (rows.map Row.boxes) options others) {depth breadth start : Value}
    {placed placed' : Table (Int × Int)}
    (hplaced : placeRanks options depth breadth start rows = .ok placed)
    (hplaced' : placeRanks others depth breadth start rows = .ok placed') : placed = placed' := by
  induction rows generalizing start placed placed' with
  | nil => exact Except.ok.inj (hplaced.symm.trans hplaced')
  | cons row rest ih =>
    obtain ⟨here, next, placedRest, hhere, hnext, hrest, rfl⟩ := placeRanks_cons_eq_ok.1 hplaced
    obtain ⟨here', next', placedRest', hhere', hnext', hrest', rfl⟩ :=
      placeRanks_cons_eq_ok.1 hplaced'
    have hgap := h.nodeSpacing.imp_right fun hsingle => hsingle row.boxes List.mem_cons_self
    rw [rankCentres_congr h hgap hhere hhere']
    congr 1
    rcases h.rankSpacing with hspacing | hone
    · rw [hspacing] at hnext
      cases hnext.symm.trans hnext'
      exact ih h.tail hrest hrest'
    · -- past a single rank nothing is left to be placed
      obtain rfl : rest = [] := List.length_eq_zero_iff.1 (by simpa using hone)
      exact Except.ok.inj (hrest.symm.trans hrest')

/-! ## Spots -/

theorem SpacedAlike.spanOf_eq (h : SpacedAlike rows options others) (hrow : row ∈ rows) :
    spanOf options.nodeSpacing.extent row = spanOf others.nodeSpacing.extent row := by
  rcases h.nodeSpacing with heq | hsingle
  · rw [heq]
  · rw [spanOf, spanOf, Nat.sub_eq_zero_of_le (hsingle row hrow), Nat.mul_zero, Nat.mul_zero]

theorem SpacedAlike.breadthOf_eq (h : SpacedAlike rows options others) :
    breadthOf options.nodeSpacing.extent rows = breadthOf others.nodeSpacing.extent rows := by
  rw [breadthOf, breadthOf, List.map_congr_left fun row hrow => h.spanOf_eq hrow]

theorem SpacedAlike.depthOf_eq (h : SpacedAlike rows options others) :
    depthOf options.rankSpacing.extent rows = depthOf others.rankSpacing.extent rows := by
  rcases h.rankSpacing with heq | hone
  · rw [heq]
  · rw [depthOf, depthOf, Nat.sub_eq_zero_of_le hone, Nat.mul_zero, Nat.mul_zero]

theorem rowSpots_congr {gap gap' : Nat} (h : gap = gap' ∨ row.length ≤ 1) (main start : Nat) :
    rowSpots gap main start row = rowSpots gap' main start row := by
  rcases h with rfl | hsingle
  · rfl
  · match row, hsingle with
    | [], _ => rfl
    | [_], _ => rfl

theorem SpacedAlike.spots_eq (h : SpacedAlike rows options others) (breadth start : Nat) :
    spots options breadth start rows = spots others breadth start rows := by
  induction rows generalizing start with
  | nil => rfl
  | cons row rest ih =>
    have hgap : options.nodeSpacing.extent = others.nodeSpacing.extent ∨ row.length ≤ 1 :=
      h.nodeSpacing.imp (congrArg Value.extent) fun hsingle => hsingle row List.mem_cons_self
    rw [spots, spots, h.spanOf_eq List.mem_cons_self, rowSpots_congr hgap, ih h.tail]
    congr 1
    rcases h.rankSpacing with heq | hone
    · rw [heq]
    · obtain rfl : rest = [] := List.length_eq_zero_iff.1 (by simpa using hone)
      rfl

/-- Spacings that nothing uses do not count for the drawing of spots. -/
theorem SpacedAlike.ofRows_eq (h : SpacedAlike rows options others) :
    ofRows options rows = ofRows others rows := by
  have hcentre : ∀ depth spot, Spot.centre options depth spot = Spot.centre others depth spot := by
    intro depth spot
    rw [Spot.centre, Spot.centre, onAxis, onAxis, h.direction, h.marginX, h.marginY]
  simp only [ofRows, h.depthOf_eq, h.breadthOf_eq, h.spots_eq, hcentre, h.direction, h.marginX,
    h.marginY]

/-! ## Rows with room -/

/-- A whole number below the limit, zero in place of a larger one. -/
def capped (spacing : Value) : Value := if spacing.extent < spacingLimit then spacing else .int 0

theorem isSpacing_capped {spacing : Value} (h : spacing.IsSpacing) :
    (capped spacing).IsSpacing := by
  rw [capped]
  split
  · exact h
  · exact Value.isSpacing_int 0

theorem extent_capped_lt (spacing : Value) : (capped spacing).extent < spacingLimit := by
  rw [capped]
  split
  · next hlt => exact hlt
  · exact le_spacingLimit (by decide)

/-- Options with spacings below the limit. -/
def cappedOptions (options : Options) : Options :=
  { options with
    nodeSpacing := capped options.nodeSpacing
    rankSpacing := capped options.rankSpacing }

/-- Where there is room, only spacings that nothing uses reach the limit. -/
theorem Roomy.spacedAlike (h : Roomy options rows) :
    SpacedAlike rows options (cappedOptions options) := by
  have hlimits : extentLimit ≤ spacingLimit := le_spacingLimit (by decide)
  refine ⟨rfl, rfl, rfl, ?_, ?_⟩
  · by_cases hlt : options.nodeSpacing.extent < spacingLimit
    · exact .inl (if_pos hlt).symm
    · refine .inr fun row hrow => ?_
      by_contra hlength
      have hspan := Nat.lt_of_le_of_lt (span_le_breadthOf _ hrow) h.breadth
      have hgap : options.nodeSpacing.extent * 1 ≤ options.nodeSpacing.extent * (row.length - 1) :=
        Nat.mul_le_mul_left _ (by omega)
      rw [spanOf] at hspan
      omega
  · by_cases hlt : options.rankSpacing.extent < spacingLimit
    · exact .inl (if_pos hlt).symm
    · refine .inr ?_
      by_contra hlength
      have hdepth := h.depth
      have hgap : options.rankSpacing.extent * 1 ≤ options.rankSpacing.extent * (rows.length - 1) :=
        Nat.mul_le_mul_left _ (by omega)
      rw [depthOf] at hdepth
      omega

theorem Roomy.measured (h : Roomy options rows) : Measured (cappedOptions options) rows where
  spacings := ⟨isSpacing_capped h.nodeSpacing, isSpacing_capped h.rankSpacing,
    extent_capped_lt options.nodeSpacing, extent_capped_lt options.rankSpacing, h.marginX,
    h.marginY⟩
  whole := h.whole
  filled := h.filled
  depth := h.spacedAlike.depthOf_eq ▸ h.depth
  breadth := h.spacedAlike.breadthOf_eq ▸ h.breadth

/-- If there is room for all boxes, a drawing has them on their spots. -/
theorem Roomy.eq_ofRows {d : Diagram} {ordering : List (List String)} {drawing : Drawing}
    (hrows : boxes d options.direction ordering = rows) (h : Roomy options rows)
    (hdrawing : ofOrdering d options ordering = .ok drawing) : drawing = ofRows options rows := by
  obtain ⟨measured, vdepth, vbreadth, hboxes, hmeasured, hvdepth, hvbreadth, heq⟩ :=
    exists_ofOrdering_eq hrows h
  rw [heq] at hdrawing
  obtain ⟨placed, hplaced, hdrawing⟩ := bind_eq_ok.1 hdrawing
  cases hdrawing
  have halike := h.spacedAlike
  have hcapped : ∀ row ∈ measured, row.IsMeasured (cappedOptions options).nodeSpacing.extent := by
    intro row hrow
    have hmem : row.boxes ∈ rows := hboxes ▸ List.mem_map_of_mem hrow
    refine ⟨(hmeasured row hrow).thickness, ?_⟩
    rw [← halike.spanOf_eq hmem]
    exact (hmeasured row hrow).span
  have hspots := h.measured.placeRanks_eq hboxes hcapped (halike.depthOf_eq ▸ hvdepth)
    (halike.breadthOf_eq ▸ hvbreadth)
  rw [placeRanks_congr (hboxes.symm ▸ halike) hplaced hspots, ← halike.ofRows_eq]

end Drawing

end BlockDiagram
