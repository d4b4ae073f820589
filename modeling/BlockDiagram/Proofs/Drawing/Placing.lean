import BlockDiagram.Proofs.Drawing.Spots
import BlockDiagram.Proofs.Drawing.Steps

/-!
# Placing boxes of whole sizes

If sizes, spacings and margins are whole numbers and the whole drawing is not too large, no step of
its arithmetic fails: offsets are halves of whole numbers, and all of them are exact. So boxes are
placed on their spots, and nothing is rounded but the centres in the end.

* `Drawing.Row.IsMeasured`: a rank with its thickness and span, in either form.
* `Drawing.rowCentres_eq`, `Drawing.placeRanks_eq`: boxes are placed on their spots.
* `Drawing.exists_ofOrdering_eq`: what is left of drawing rows is to place them.
* `Drawing.ofOrdering_eq`: measured rows have the drawing of their spots.
-/

namespace BlockDiagram.Drawing

open Value

variable {options : Options} {rows : List (List Box)} {row : List Box} {vdepth vbreadth : Value}
  {depth breadth : Nat}

/-! ## Boxes -/

theorem exists_add_margin {margin v : Value} {k : Int} (hmargin : margin.IsBounded)
    (hv : v.IsHalf k) (hk : k.natAbs ≤ 2 ^ 52) :
    ∃ u, margin.add v = .ok u ∧ u.round = .ok (beyond margin k) := by
  obtain ⟨hwhole, hlt⟩ := hmargin
  rw [extentLimit] at hlt
  obtain ⟨u, hu, hhalf⟩ := exists_add hwhole.isHalf hv (by omega) (by omega) (by omega)
  exact ⟨u, hu, round_eq hhalf⟩

theorem centre_eq (hoptions : options.Measured) {main cross : Value} {m n : Int}
    (hmain : main.IsHalf m) (hcross : cross.IsHalf n) (hm : m.natAbs ≤ 2 ^ 52)
    (hn : n.natAbs ≤ 2 ^ 52) :
    centre options main cross
      = .ok (if options.direction.isHorizontal then
          (beyond options.marginX m, beyond options.marginY n)
        else (beyond options.marginX n, beyond options.marginY m)) := by
  rw [centre]
  cases options.direction.isHorizontal
  · obtain ⟨x, hx, hroundX⟩ := exists_add_margin hoptions.marginX hcross hn
    obtain ⟨y, hy, hroundY⟩ := exists_add_margin hoptions.marginY hmain hm
    simp only [Bool.false_eq_true, if_false, hx, hy, bind, Except.bind, hroundX, hroundY]
    rfl
  · obtain ⟨x, hx, hroundX⟩ := exists_add_margin hoptions.marginX hmain hm
    obtain ⟨y, hy, hroundY⟩ := exists_add_margin hoptions.marginY hcross hn
    simp only [if_true, hx, hy, bind, Except.bind, hroundX, hroundY]
    rfl

theorem exists_alongAxis (options : Options) {position : Value} {main : Nat}
    (hvdepth : vdepth.IsWhole depth) (hposition : position.IsHalf main)
    (hdepth : depth < extentLimit) (hmain : main ≤ 2 ^ 52) :
    ∃ u, alongAxis options vdepth position = .ok u ∧ u.IsHalf (onAxis options depth main) := by
  rw [extentLimit] at hdepth
  rw [alongAxis, onAxis]
  split
  · exact exists_sub hvdepth.isHalf hposition (by omega) (by omega) (by omega)
  · exact ⟨position, rfl, hposition⟩

theorem natAbs_onAxis_le (options : Options) {depth main : Nat} (hdepth : depth < extentLimit)
    (hmain : main ≤ 2 ^ 52) : (onAxis options depth main).natAbs ≤ 2 ^ 52 := by
  rw [extentLimit] at hdepth
  rw [onAxis]
  split <;> omega

/-- An offset past an extent and a gap. -/
theorem exists_past {start extent gap : Value} {s a b : Nat} (hstart : start.IsHalf s)
    (hextent : extent.IsWhole a) (hgap : gap.IsWhole b) (hs : s + 2 * (a + b) < 2 ^ 53) :
    ∃ u, (extent.add gap >>= start.add) = .ok u ∧ u.IsHalf (s + 2 * (a + b) : Nat) := by
  obtain ⟨step, hstep, hwhole⟩ := exists_add_whole hextent hgap (by omega)
  obtain ⟨u, hu, hhalf⟩ := exists_add hstart hwhole.isHalf (by omega) (by omega) (by omega)
  exact ⟨u, Outcome.bind_eq_ok.2 ⟨step, hstep, hu⟩, by exact_mod_cast hhalf⟩

/-- The middle of an extent that begins at an offset. -/
theorem exists_middle {start extent : Value} {s a : Nat} (hstart : start.IsHalf s)
    (hextent : extent.IsWhole a) (hs : s + a < 2 ^ 53) :
    ∃ u, (extent.half >>= start.add) = .ok u ∧ u.IsHalf (s + a : Nat) := by
  obtain ⟨u, hu, hhalf⟩ :=
    exists_add hstart (isHalf_halved a) (by omega) (by omega) (by omega)
  refine ⟨u, Outcome.bind_eq_ok.2 ⟨halved a, half_eq hextent (by omega), hu⟩, ?_⟩
  exact_mod_cast hhalf

/-- The step past an extent and a gap succeeds, though it is rounded if the gap is large. -/
theorem exists_beyond {start extent gap : Value} {s : Int} {a b : Nat} (hstart : start.IsHalf s)
    (hextent : extent.IsWhole a) (hgap : gap.IsWhole b) (hs : s.natAbs < 2 ^ 53)
    (ha : a < 2 ^ 52) (hb : b < spacingLimit) :
    ∃ u, (extent.add gap >>= start.add) = .ok u := by
  have hsum : a + b < 2 ^ (spacingBits + 1) := by
    rw [Nat.two_pow_succ]
    exact Nat.add_lt_add (le_spacingLimit ha) hb
  obtain ⟨step, hstep, hreal⟩ := exists_add_isReal spacingBits_bounds.2 hextent hgap hsum
  obtain ⟨u, hu⟩ := exists_add_of_isReal (hstart.isReal hs) hreal
  exact ⟨u, Outcome.bind_eq_ok.2 ⟨step, hstep, hu⟩⟩

/-- All boxes of a rank are placed on their spots, from an offset that leaves room for them. -/
theorem rowCentres_eq (hoptions : options.Measured) {depth main : Nat}
    (hdepth : depth < extentLimit) (hmain : main ≤ 2 ^ 52) {vmain : Value}
    (hvmain : vmain.IsHalf (onAxis options depth main))
    (hrow : ∀ box ∈ row, box.across.IsExtent) {start : Value} {s : Nat} (hstart : start.IsHalf s)
    (hs : s + 2 * spanOf options.nodeSpacing.extent row ≤ 2 ^ 52) :
    rowCentres options vmain start row
      = .ok ((rowSpots options.nodeSpacing.extent main s row).map fun spot =>
          (spot.box.id, spot.centre options depth)) := by
  -- Offsets count halves, so what a box takes up counts twice and the room left shrinks by that.
  induction row generalizing start s with
  | nil => rfl
  | cons box rest ih =>
    obtain ⟨hbox, hrest⟩ := List.forall_mem_cons.1 hrow
    have hgap := hoptions.nodeSpacing.1
    have hacross : box.across.extent ≤ spanOf options.nodeSpacing.extent (box :: rest) := by
      rw [spanOf, List.map_cons, List.sum_cons]
      omega
    obtain ⟨cross, hcross, hcrossHalf⟩ := exists_middle hstart hbox (by omega)
    have hhere := centre_eq hoptions hvmain hcrossHalf (natAbs_onAxis_le options hdepth hmain)
      (by omega)
    obtain ⟨next, hnext, hothers⟩ :
        ∃ next, (box.across.add options.nodeSpacing >>= start.add) = .ok next ∧
          rowCentres options vmain next rest
            = .ok ((rowSpots options.nodeSpacing.extent main
                (s + 2 * (box.across.extent + options.nodeSpacing.extent)) rest).map fun spot =>
                  (spot.box.id, spot.centre options depth)) := by
      cases rest with
      | nil =>
        -- Nothing is placed past the last box, so that step need not be exact.
        obtain ⟨next, hnext⟩ := exists_beyond hstart hbox hgap (by omega) (by omega)
          hoptions.nodeSpacing_lt
        exact ⟨next, hnext, rfl⟩
      | cons second rest =>
        rw [spanOf_cons_cons] at hs
        obtain ⟨next, hnext, hnextHalf⟩ := exists_past hstart hbox hgap (by omega)
        exact ⟨next, hnext, ih hrest hnextHalf (by omega)⟩
    refine rowCentres_cons_eq_ok.2 ⟨cross, _, next, _, hcross, hhere, hnext, hothers, ?_⟩
    rw [rowSpots, List.map_cons, Spot.centre]

/-! ## Ranks -/

/-- Whether the thickness and span of a rank are those of its boxes. -/
structure Row.IsMeasured (gap : Nat) (row : Row) : Prop where
  thickness : row.thickness.IsWhole (thicknessOf row.boxes)
  span : row.span.IsWhole (spanOf gap row.boxes)

/-- The boxes of a rank are placed on their spots, from an offset that leaves room for the rank. -/
theorem rankCentres_eq (hoptions : options.Measured) (hvdepth : vdepth.IsWhole depth)
    (hvbreadth : vbreadth.IsWhole breadth) (hdepth : depth < extentLimit)
    (hbreadth : breadth < extentLimit) {row : Row}
    (hrow : row.IsMeasured options.nodeSpacing.extent)
    (hwhole : ∀ box ∈ row.boxes, box.across.IsExtent)
    (hspan : spanOf options.nodeSpacing.extent row.boxes ≤ breadth) {start : Value} {s : Nat}
    (hstart : start.IsHalf s) (hs : s + 2 * thicknessOf row.boxes ≤ 2 ^ 52) :
    rankCentres options vdepth vbreadth start row
      = .ok ((rowSpots options.nodeSpacing.extent (s + thicknessOf row.boxes)
          (breadth - spanOf options.nodeSpacing.extent row.boxes) row.boxes).map fun spot =>
            (spot.box.id, spot.centre options depth)) := by
  have hmain : s + thicknessOf row.boxes ≤ 2 ^ 52 := by omega
  obtain ⟨middle, hmiddle, hmiddleHalf⟩ := exists_middle hstart hrow.thickness (by omega)
  obtain ⟨main, hvmain, hvmainHalf⟩ :=
    exists_alongAxis options hvdepth hmiddleHalf hdepth hmain
  rw [extentLimit] at hbreadth
  obtain ⟨room, hroom, hroomHalf⟩ := exists_sub hvbreadth.isHalf hrow.span.isHalf (by omega)
    (by omega) (by omega)
  have hroomWhole : room.IsWhole (breadth - spanOf options.nodeSpacing.extent row.boxes : Nat) := by
    apply IsHalf.isWhole
    rwa [Int.natCast_sub hspan, Int.mul_sub]
  have hcross := half_eq hroomWhole (by omega)
  have hplaced := rowCentres_eq hoptions hdepth hmain hvmainHalf hwhole (isHalf_halved _)
    (s := breadth - spanOf options.nodeSpacing.extent row.boxes) (by omega)
  exact rankCentres_eq_ok.2 ⟨main, _, Outcome.bind_eq_ok.2 ⟨middle, hmiddle, hvmain⟩,
    Outcome.bind_eq_ok.2 ⟨room, hroom, hcross⟩, hplaced⟩

/-- The boxes of all ranks are placed on their spots, from an offset that leaves room for them. -/
theorem placeRanks_eq (hoptions : options.Measured) (hvdepth : vdepth.IsWhole depth)
    (hvbreadth : vbreadth.IsWhole breadth) (hdepth : depth < extentLimit)
    (hbreadth : breadth < extentLimit) {measured : List Row}
    (hmeasured : ∀ row ∈ measured, row.IsMeasured options.nodeSpacing.extent)
    (hwhole : ∀ row ∈ measured, ∀ box ∈ row.boxes, box.across.IsExtent)
    (hspan : ∀ row ∈ measured, spanOf options.nodeSpacing.extent row.boxes ≤ breadth)
    {start : Value} {s : Nat} (hstart : start.IsHalf s)
    (hs : s + 2 * depthOf options.rankSpacing.extent (measured.map Row.boxes) ≤ 2 * depth) :
    placeRanks options vdepth vbreadth start measured
      = .ok ((spots options breadth s (measured.map Row.boxes)).flatten.map fun spot =>
          (spot.box.id, spot.centre options depth)) := by
  have hlimit := hdepth
  rw [extentLimit] at hlimit
  induction measured generalizing start s with
  | nil => rfl
  | cons row rest ih =>
    rw [List.forall_mem_cons] at hmeasured hwhole hspan
    have hgap := hoptions.rankSpacing.1
    have hthickness : thicknessOf row.boxes
        ≤ depthOf options.rankSpacing.extent ((row :: rest).map Row.boxes) := by
      rw [depthOf, List.map_cons, List.map_cons, List.sum_cons]
      omega
    have hhere := rankCentres_eq hoptions hvdepth hvbreadth hdepth hbreadth hmeasured.1 hwhole.1
      hspan.1 hstart (by omega)
    obtain ⟨next, hnext, hothers⟩ :
        ∃ next, (row.thickness.add options.rankSpacing >>= start.add) = .ok next ∧
          placeRanks options vdepth vbreadth next rest
            = .ok ((spots options breadth
                (s + 2 * (thicknessOf row.boxes + options.rankSpacing.extent))
                (rest.map Row.boxes)).flatten.map fun spot =>
                  (spot.box.id, spot.centre options depth)) := by
      cases rest with
      | nil =>
        obtain ⟨next, hnext⟩ := exists_beyond hstart hmeasured.1.thickness hgap (by omega)
          (by omega) hoptions.rankSpacing_lt
        exact ⟨next, hnext, rfl⟩
      | cons second rest =>
        rw [List.map_cons, List.map_cons, depthOf_cons_cons, ← List.map_cons] at hs
        obtain ⟨next, hnext, hnextHalf⟩ :=
          exists_past hstart hmeasured.1.thickness hgap (by omega)
        exact ⟨next, hnext, ih hmeasured.2 hwhole.2 hspan.2 hnextHalf (by omega)⟩
    refine placeRanks_cons_eq_ok.2 ⟨_, next, _, hhere, hnext, hothers, ?_⟩
    rw [List.map_cons, spots, List.flatten_cons, List.map_append]

/-! ## Drawings -/

theorem numbered_ids (rows : List (List Box)) :
    (rows.zipIdx.flatMap fun (row, rank) => row.map fun box => (box.id, rank))
      = Digraph.numbered (ids rows) := by
  simp [Digraph.numbered, ids, List.zipIdx_map, List.flatMap_map, Function.comp_def]

/-- The rows of a drawing have the thicknesses and spans of their boxes. -/
theorem isMeasured_rowsWith {gap : Nat} {thicknesses spans : List Value}
    (hthicknesses : AreWhole thicknesses (rows.map thicknessOf))
    (hspans : AreWhole spans (rows.map (spanOf gap))) :
    (rowsWith rows thicknesses spans).map Row.boxes = rows ∧
      ∀ row ∈ rowsWith rows thicknesses spans, row.IsMeasured gap := by
  induction rows generalizing thicknesses spans with
  | nil => exact ⟨rfl, nofun⟩
  | cons row rest ih =>
    rw [List.map_cons] at hthicknesses hspans
    cases hthicknesses with
    | cons hthickness hthicknesses =>
      cases hspans with
      | cons hspan hspans =>
        obtain ⟨hboxes, hmeasured⟩ := ih hthicknesses hspans
        exact ⟨congrArg (row :: ·) hboxes, List.forall_mem_cons.2 ⟨⟨hthickness, hspan⟩, hmeasured⟩⟩

theorem bound_eq {extent margin : Value} {n : Nat} (hextent : extent.IsWhole n)
    (hn : n < extentLimit) (hmargin : margin.IsBounded) :
    bound extent margin = .ok (framed margin n) := by
  obtain ⟨hwhole, hlt⟩ := hmargin
  rw [extentLimit] at hn hlt
  obtain ⟨twice, htwice, hwhole'⟩ :=
    Value.exists_times hwhole (k := 2) (by omega) (by omega)
  have hleft : margin.timesLeft 2 = .ok twice := by
    rw [timesLeft, show margin.times 2 = .ok twice from htwice]
  obtain ⟨total, htotal, hwhole''⟩ := exists_add_whole hextent hwhole' (by omega)
  have hround := round_eq hwhole''.isHalf
  rw [roundedHalf_double] at hround
  rw [bound, hleft]
  simp only [bind, Except.bind, htotal, hround, framed]
  congr 1
  push_cast
  ring

/-- What is left of drawing rows is to place the boxes. -/
theorem exists_ofOrdering_eq {d : Diagram} {ordering : List (List String)}
    (hrows : boxes d options.direction ordering = rows) (h : Roomy options rows) :
    ∃ measured vdepth vbreadth, measured.map Row.boxes = rows ∧
      (∀ row ∈ measured, row.IsMeasured options.nodeSpacing.extent) ∧
      vdepth.IsWhole (depthOf options.rankSpacing.extent rows) ∧
      vbreadth.IsWhole (breadthOf options.nodeSpacing.extent rows) ∧
      ofOrdering d options ordering = (do
        let placed ← placeRanks options vdepth vbreadth (halved 0) measured
        return { ofRows options rows with centres := placed }) := by
  obtain ⟨thicknesses, hthicknesses, hwholes⟩ := h.exists_thicknesses
  obtain ⟨spans, hspans, hwholes'⟩ := h.exists_spans
  obtain ⟨total, gaps, vdepth, vbreadth, htotal, hgaps, hvdepth, hvbreadth, hdepth, hbreadth⟩ :=
    h.exists_extents hwholes hwholes'
  obtain ⟨hboxes, hmeasured⟩ := isMeasured_rowsWith hwholes hwholes'
  refine ⟨_, vdepth, vbreadth, hboxes, hmeasured, hdepth, hbreadth, ?_⟩
  have hzero : halved 0 = .float (.rational 0) := by simp [halved]
  have hdepthX := bound_eq hdepth h.depth h.marginX
  have hdepthY := bound_eq hdepth h.depth h.marginY
  have hbreadthX := bound_eq hbreadth h.breadth h.marginX
  have hbreadthY := bound_eq hbreadth h.breadth h.marginY
  rw [ofOrdering, hrows]
  simp only [hthicknesses, hspans, bind, Except.bind, htotal, hgaps, hvdepth, hvbreadth,
    numbered_ids, hzero]
  congr 1
  funext placed
  simp only [ofRows]
  cases options.direction.isHorizontal <;>
    simp only [Bool.false_eq_true, if_true, if_false, hdepthX, hdepthY, hbreadthX, hbreadthY]

theorem Measured.placeRanks_eq (h : Measured options rows) {measured : List Row}
    (hboxes : measured.map Row.boxes = rows)
    (hmeasured : ∀ row ∈ measured, row.IsMeasured options.nodeSpacing.extent)
    (hvdepth : vdepth.IsWhole (depthOf options.rankSpacing.extent rows))
    (hvbreadth : vbreadth.IsWhole (breadthOf options.nodeSpacing.extent rows)) :
    placeRanks options vdepth vbreadth (halved 0) measured
      = .ok (ofRows options rows).centres := by
  subst hboxes
  have hmem : ∀ row ∈ measured, row.boxes ∈ measured.map Row.boxes := fun row =>
    List.mem_map_of_mem
  exact Drawing.placeRanks_eq h.spacings hvdepth hvbreadth h.depth h.breadth hmeasured
    (fun row hrow box hbox => (h.whole _ (hmem row hrow) box hbox).2)
    (fun row hrow => span_le_breadthOf _ (hmem row hrow)) (isHalf_halved (0 : Nat))
    (Nat.le_of_eq (Nat.zero_add _))

/-- Measured rows have the drawing of their spots. -/
theorem ofOrdering_eq {d : Diagram} {ordering : List (List String)}
    (h : Measured options (boxes d options.direction ordering)) :
    ofOrdering d options ordering = .ok (ofRows options (boxes d options.direction ordering)) := by
  obtain ⟨measured, vdepth, vbreadth, hboxes, hmeasured, hvdepth, hvbreadth, heq⟩ :=
    exists_ofOrdering_eq rfl h.roomy
  rw [heq, h.placeRanks_eq hboxes hmeasured hvdepth hvbreadth]
  rfl

end BlockDiagram.Drawing
