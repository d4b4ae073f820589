import BlockDiagram.Proofs.Drawing.Ranks

/-!
# Proper drawings

In a drawing of whole sizes with gaps between them, every node keeps inside the bounds, no two nodes
overlap, and connections without a cycle advance in the direction of the drawing. Centres are
rounded one by one, each by no more than a half, so a gap of one makes up for the rounding of two
centres and a margin of one for that of a single centre.

* `Rectangle`: the rectangle of a node around its centre.
* `Drawing.apart_of_mem_spots`, `Drawing.lt_of_mem_spots`: what the distances of spots come to.
* `Diagram.RankedBy.isProper`: the drawing of a diagram is proper.
* `Diagram.drawing_isProper`: which diagrams have a drawing, and that it is proper.
-/

namespace BlockDiagram

open BlockDiagram.Digraph (InBatch NoCycle)

/-! ## Rectangles -/

/-- A rectangle by its sides. -/
structure Rectangle where
  left : Rat
  right : Rat
  top : Rat
  bottom : Rat

/-- The rectangle of a size around its centre. -/
def Rectangle.around (centre : Int × Int) (width height : Nat) : Rectangle :=
  ⟨centre.1 - width / 2, centre.1 + width / 2, centre.2 - height / 2, centre.2 + height / 2⟩

/-- Whether a rectangle lies between the origin and the bounds. -/
structure Rectangle.IsWithin (r : Rectangle) (width height : Int) : Prop where
  left : 0 ≤ r.left
  right : r.right ≤ width
  top : 0 ≤ r.top
  bottom : r.bottom ≤ height

/-- Whether a point lies in the interior of a rectangle. -/
def Rectangle.Surrounds (r : Rectangle) (x y : Rat) : Prop :=
  (r.left < x ∧ x < r.right) ∧ r.top < y ∧ y < r.bottom

/-- The rectangle of a node with whole sizes. -/
def Node.rectangle (node : Node) (centre : Int × Int) : Rectangle :=
  .around centre node.width.extent node.height.extent

/-- Whether one position lies after another in a direction. -/
def Direction.Advances : Direction → Int × Int → Int × Int → Prop
  | .leftToRight, p, q => p.1 < q.1
  | .rightToLeft, p, q => q.1 < p.1
  | .topToBottom, p, q => p.2 < q.2
  | .bottomToTop, p, q => q.2 < p.2

/-- Whether two extents around positions do not overlap, whichever comes first. -/
def Separate (c c' : Int) (size size' : Nat) : Prop :=
  2 * c + size + size' ≤ 2 * c' ∨ 2 * c' + size + size' ≤ 2 * c

theorem Separate.not_between {c c' : Int} {size size' : Nat} (h : Separate c c' size size')
    {x : Rat} (hx : (c : Rat) - size / 2 < x ∧ x < c + size / 2) :
    ¬ ((c' : Rat) - size' / 2 < x ∧ x < c' + size' / 2) := by
  rintro ⟨hlow, hhigh⟩
  rcases h with h | h
  · have hcast : 2 * (c : Rat) + size + size' ≤ 2 * c' := by exact_mod_cast h
    linarith
  · have hcast : 2 * (c' : Rat) + size + size' ≤ 2 * c := by exact_mod_cast h
    linarith

/-- Rectangles that are apart along one axis have no point of their interiors in common. -/
theorem Rectangle.not_surrounds_around {p q : Int × Int} {width height width' height' : Nat}
    (h : Separate p.1 q.1 width width' ∨ Separate p.2 q.2 height height') (x y : Rat) :
    ¬ ((around p width height).Surrounds x y ∧ (around q width' height').Surrounds x y) := by
  rintro ⟨⟨hx, hy⟩, hx', hy'⟩
  rcases h with h | h
  · exact h.not_between hx hx'
  · exact h.not_between hy hy'

theorem Rectangle.isWithin_around {p : Int × Int} {width height : Nat} {right bottom : Int}
    (hx : width ≤ 2 * p.1 ∧ 2 * p.1 + width ≤ 2 * right)
    (hy : height ≤ 2 * p.2 ∧ 2 * p.2 + height ≤ 2 * bottom) :
    (around p width height).IsWithin right bottom := by
  have hleft : (width : Rat) ≤ 2 * p.1 := by exact_mod_cast hx.1
  have hright : 2 * (p.1 : Rat) + width ≤ 2 * right := by exact_mod_cast hx.2
  have htop : (height : Rat) ≤ 2 * p.2 := by exact_mod_cast hy.1
  have hbottom : 2 * (p.2 : Rat) + height ≤ 2 * bottom := by exact_mod_cast hy.2
  constructor <;> dsimp only [around] <;> linarith

/-! ## Rounded positions -/

namespace Drawing

open Value (roundedHalf_bounds)

variable {options : Options} {depth breadth : Nat} {rows : List (List Box)} {a b spot : Spot}

/-- A box that keeps inside an extent still does when its centre is rounded, if there is a margin.
-/
theorem beyond_within {margin : Value} (hmargin : 0 < margin.extent) {extent size : Nat} {k : Int}
    (h : size ≤ k ∧ k + size ≤ 2 * extent) :
    size ≤ 2 * beyond margin k ∧ 2 * beyond margin k + size ≤ 2 * framed margin extent := by
  have hbounds := roundedHalf_bounds (2 * margin.extent + k)
  rw [beyond, framed]
  omega

/-- Two boxes with a gap between them do not overlap when their centres are rounded. -/
theorem beyond_apart (margin : Value) {size size' gap : Nat} {k l : Int} (hgap : 0 < gap)
    (h : k + size + size' + 2 * gap ≤ l) :
    2 * beyond margin k + size + size' ≤ 2 * beyond margin l := by
  have hbounds := roundedHalf_bounds (2 * margin.extent + k)
  have hbounds' := roundedHalf_bounds (2 * margin.extent + l)
  rw [beyond, beyond]
  omega

theorem onAxis_within (options : Options) {main size : Nat}
    (h : size ≤ main ∧ main + size ≤ 2 * depth) :
    size ≤ onAxis options depth main ∧ onAxis options depth main + size ≤ 2 * depth := by
  rw [onAxis]
  split <;> omega

/-- A box behind another one along the main axis is apart from it, in either direction. -/
theorem separate_onAxis (margin : Value) (depth : Nat) {main main' size size' gap : Nat}
    (hgap : 0 < gap) (h : main + size + size' + 2 * gap ≤ main') :
    Separate (beyond margin (onAxis options depth main))
      (beyond margin (onAxis options depth main')) size size' := by
  rw [onAxis, onAxis]
  split
  · have hapart := beyond_apart margin hgap
      (show (2 * depth - main' : Int) + size + size' + 2 * gap ≤ 2 * depth - main by omega)
    exact .inr hapart
  · exact .inl (beyond_apart margin hgap (by omega))

/-! ## Spots -/

/-- Spots of two ranks are apart along the main axis, those of one rank across it. -/
def Spot.IsBefore (options : Options) (a b : Spot) : Prop :=
  a.main + a.box.along.extent + b.box.along.extent + 2 * options.rankSpacing.extent ≤ b.main ∨
    a.cross + a.box.across.extent + b.box.across.extent + 2 * options.nodeSpacing.extent ≤ b.cross

theorem pairwise_isBefore (options : Options) (breadth start : Nat) (rows : List (List Box)) :
    (spots options breadth start rows).flatten.Pairwise (Spot.IsBefore options) := by
  refine List.pairwise_flatten.2 ⟨fun spotRow hrow => ?_, ?_⟩
  · obtain ⟨row, -, main, rfl⟩ := exists_rowSpots_of_mem_spots hrow
    exact (pairwise_rowSpots _ _ _ _).imp Or.inr
  · exact (pairwise_spots options breadth start rows).imp
      fun h a ha b hb => Or.inl (h a ha b hb)

/-- Of two different spots one is before the other. -/
theorem isBefore_or_isBefore {start : Nat} (ha : a ∈ (spots options breadth start rows).flatten)
    (hb : b ∈ (spots options breadth start rows).flatten) (hne : a ≠ b) :
    a.IsBefore options b ∨ b.IsBefore options a := by
  let either : Spot → Spot → Prop := fun a b => a.IsBefore options b ∨ b.IsBefore options a
  have hsymm : Std.Symm either := ⟨fun _ _ => Or.symm⟩
  have hpairwise : (spots options breadth start rows).flatten.Pairwise either :=
    (pairwise_isBefore options breadth start rows).imp Or.inl
  exact hpairwise.forall ha hb hne

/-- The rectangle of a box on its spot. -/
def Spot.rectangle (options : Options) (depth : Nat) (spot : Spot) : Rectangle :=
  if options.direction.isHorizontal then
    .around (spot.centre options depth) spot.box.along.extent spot.box.across.extent
  else .around (spot.centre options depth) spot.box.across.extent spot.box.along.extent

theorem rectangle_ofNode {id : String} {node : Node}
    (h : spot.box = Box.ofNode options.direction id node) :
    node.rectangle (spot.centre options depth) = spot.rectangle options depth := by
  rw [Spot.rectangle, h, Box.ofNode, Node.rectangle]
  split <;> rfl

/-- Boxes that are before each other do not overlap. -/
theorem Spot.IsBefore.not_surrounds (h : a.IsBefore options b)
    (hnode : 0 < options.nodeSpacing.extent) (hrank : 0 < options.rankSpacing.extent)
    (x y : Rat) :
    ¬ ((a.rectangle options depth).Surrounds x y ∧ (b.rectangle options depth).Surrounds x y) := by
  have hseparate : ∀ margin margin' : Value,
      Separate (beyond margin (onAxis options depth a.main))
          (beyond margin (onAxis options depth b.main)) a.box.along.extent b.box.along.extent ∨
        Separate (beyond margin' a.cross) (beyond margin' b.cross)
          a.box.across.extent b.box.across.extent := by
    intro margin margin'
    rcases h with h | h
    · exact .inl (separate_onAxis margin depth hrank h)
    · exact .inr (.inl (beyond_apart margin' hnode (by omega)))
  rw [Spot.rectangle, Spot.rectangle, Spot.centre, Spot.centre]
  split
  · refine Rectangle.not_surrounds_around ?_ x y
    exact hseparate options.marginX options.marginY
  · refine Rectangle.not_surrounds_around ?_ x y
    exact (hseparate options.marginY options.marginX).symm

/-- With margins, boxes keep inside the bounds of their drawing. -/
theorem isWithin_of_mem_spots (hx : 0 < options.marginX.extent) (hy : 0 < options.marginY.extent)
    (hfilled : ∀ row ∈ rows, row ≠ [])
    (h : spot ∈ (spots options (breadthOf options.nodeSpacing.extent rows) 0 rows).flatten) :
    (spot.rectangle options (depthOf options.rankSpacing.extent rows)).IsWithin
      (ofRows options rows).width (ofRows options rows).height := by
  obtain ⟨spotRow, hrow, hspot⟩ := List.mem_flatten.1 h
  have hcross := cross_of_mem_spots hfilled (fun row hrow => span_le_breadthOf _ hrow) hrow hspot
  have hmain := onAxis_within options (main_of_mem_spots hrow hspot)
  have hcross' : (spot.box.across.extent : Int) ≤ spot.cross ∧
      (spot.cross : Int) + spot.box.across.extent
        ≤ 2 * breadthOf options.nodeSpacing.extent rows := by omega
  rw [Spot.rectangle, Spot.centre, width_ofRows, height_ofRows]
  split
  · exact Rectangle.isWithin_around (beyond_within hx hmain) (beyond_within hy hcross')
  · exact Rectangle.isWithin_around (beyond_within hx hcross') (beyond_within hy hmain)

/-- A spot of a later rank lies further in the direction of the drawing. -/
theorem advances_of_le (hrank : 0 < options.rankSpacing.extent) (hbox : 0 < a.box.along.extent)
    (h : a.main + a.box.along.extent + b.box.along.extent + 2 * options.rankSpacing.extent
      ≤ b.main) :
    options.direction.Advances (a.centre options depth) (b.centre options depth) := by
  have hforward : ∀ margin : Value, beyond margin a.main < beyond margin b.main := by
    intro margin
    have hbehind : (a.main : Int) + a.box.along.extent + b.box.along.extent
        + 2 * options.rankSpacing.extent ≤ b.main := by omega
    have hapart := beyond_apart margin hrank hbehind
    omega
  have hbackward : ∀ margin : Value,
      beyond margin (2 * depth - b.main) < beyond margin (2 * depth - a.main) := by
    intro margin
    have hbehind : (2 * depth - b.main : Int) + a.box.along.extent + b.box.along.extent
        + 2 * options.rankSpacing.extent ≤ 2 * depth - a.main := by omega
    have hapart := beyond_apart margin hrank hbehind
    omega
  simp only [Spot.centre, onAxis]
  cases options.direction
  · exact hforward _
  · exact hforward _
  · exact hbackward _
  · exact hbackward _

/-- A centre belongs to a spot in the row that has the number of its rank. -/
theorem exists_spot_of_centre {id : String} {p : Int × Int}
    (h : (ofRows options rows).centres.get? id = some p) :
    ∃ r spotRow spot,
      (spots options (breadthOf options.nodeSpacing.extent rows) 0 rows)[r]? = some spotRow ∧
      spot ∈ spotRow ∧ spot.box.id = id ∧
      spot.centre options (depthOf options.rankSpacing.extent rows) = p ∧
      InBatch (ids rows) r id := by
  obtain ⟨spot, hspot, heq⟩ := List.mem_map.1 (Table.mem_of_get? h)
  obtain ⟨rfl, rfl⟩ := Prod.mk.inj heq
  obtain ⟨spotRow, hrow, hmem⟩ := List.mem_flatten.1 hspot
  obtain ⟨r, hr⟩ := List.getElem?_of_mem hrow
  have hids : (ids rows)[r]? = some (spotRow.map fun spot => spot.box.id) := by
    rw [ids, List.getElem?_map, ← map_box_spots options _ 0 rows, List.getElem?_map, hr,
      Option.map_some, Option.map_some, List.map_map]
    rfl
  exact ⟨r, spotRow, spot, hr, hmem, rfl, rfl, _, hids, List.mem_map_of_mem hmem⟩

end Drawing

/-! ## Diagrams -/

namespace Diagram

/-- What a diagram needs for a proper drawing: what it needs for a drawing, and sizes, spacings and
margins that are not zero. -/
structure Spaced (d : Diagram) (options : Options) : Prop extends Drawable d options where
  sized : ∀ id node, d.nodes.get? id = some node →
    0 < node.width.extent ∧ 0 < node.height.extent
  nodeGap : 0 < options.nodeSpacing.extent
  rankGap : 0 < options.rankSpacing.extent
  marginX : 0 < options.marginX.extent
  marginY : 0 < options.marginY.extent

/-- Every node has a rectangle inside the bounds, those of different nodes have no interior point in
common, and if the pairs that edges join form no cycle, each pair advances in the direction of the
drawing. -/
structure IsProper (d : Diagram) (options : Options) (drawing : Drawing) : Prop where
  within : ∀ id node, d.nodes.get? id = some node → ∃ p, drawing.centres.get? id = some p ∧
    (node.rectangle p).IsWithin drawing.width drawing.height
  apart : ∀ id other node node' p q, id ≠ other → d.nodes.get? id = some node →
    d.nodes.get? other = some node' → drawing.centres.get? id = some p →
    drawing.centres.get? other = some q →
    ∀ x y, ¬ ((node.rectangle p).Surrounds x y ∧ (node'.rectangle q).Surrounds x y)
  advancing : NoCycle d.links → ∀ u v p q, (u, v) ∈ d.links → drawing.centres.get? u = some p →
    drawing.centres.get? v = some q → options.direction.Advances p q

variable {d : Diagram} {options : Options} {g : Digraph}

/-- The spot of a node in its drawing. -/
theorem exists_spot_of_node {id : String} {node : Node} {p : Int × Int}
    (hnode : d.nodes.get? id = some node)
    (hp : (Drawing.ofRows options (d.rowsOf options g)).centres.get? id = some p) :
    ∃ spot ∈ (Drawing.spots options (Drawing.breadthOf options.nodeSpacing.extent
        (d.rowsOf options g)) 0 (d.rowsOf options g)).flatten, spot.box.id = id ∧
      node.rectangle p = spot.rectangle options
        (Drawing.depthOf options.rankSpacing.extent (d.rowsOf options g)) := by
  obtain ⟨r, spotRow, spot, hr, hspot, hid, rfl, -⟩ := Drawing.exists_spot_of_centre hp
  have hrow := List.mem_of_getElem? hr
  obtain ⟨row, hbox, main, hspots⟩ := Drawing.exists_rowSpots_of_mem_spots hrow
  obtain ⟨node', hnode', heq⟩ := Drawing.exists_node_of_mem_boxes hbox
    (Drawing.box_mem_of_mem_rowSpots (hspots ▸ hspot))
  rw [hid, hnode] at hnode'
  cases hnode'
  exact ⟨spot, List.mem_flatten.2 ⟨spotRow, hrow, hspot⟩, hid, Drawing.rectangle_ofNode heq⟩

/-- With gaps and margins, the drawing of a diagram is proper. -/
theorem RankedBy.isProper (h : d.RankedBy g) (hspaced : d.Spaced options) :
    d.IsProper options (Drawing.ofRows options (d.rowsOf options g)) := by
  obtain ⟨drawing, hdrawing, hcentres, hkeys, hmem⟩ := h.exists_drawing hspaced.toDrawable
  have hranked := h.isRankedIn hspaced.ends hcentres hkeys hmem
  rw [h.drawing_eq hspaced.toDrawable] at hdrawing
  rw [← Except.ok.inj hdrawing] at hranked
  refine ⟨fun id node hnode => ?_, fun id other node node' p q hne hnode hnode' hp hq => ?_,
    fun hcycle u v p q huv hp hq => ?_⟩
  · have hkey : id ∈ d.nodes.keys := List.mem_map_of_mem (f := Prod.fst) (Table.mem_of_get? hnode)
    obtain ⟨p, hp⟩ := Option.isSome_iff_exists.1
      (Table.mem_keys_iff.1 ((hranked.centreKeys.2 id).2 hkey))
    obtain ⟨spot, hspot, -, hrectangle⟩ := exists_spot_of_node hnode hp
    refine ⟨p, hp, ?_⟩
    rw [hrectangle]
    exact Drawing.isWithin_of_mem_spots hspaced.marginX hspaced.marginY
      (hspaced.toDrawable.measured h).filled hspot
  · obtain ⟨a, ha, haid, hrectangle⟩ := exists_spot_of_node hnode hp
    obtain ⟨b, hb, hbid, hrectangle'⟩ := exists_spot_of_node hnode' hq
    have hspots : a ≠ b := by
      rintro rfl
      exact hne (haid.symm.trans hbid)
    intro x y
    rw [hrectangle, hrectangle']
    rcases Drawing.isBefore_or_isBefore ha hb hspots with hbefore | hbefore
    · exact hbefore.not_surrounds hspaced.nodeGap hspaced.rankGap x y
    · exact fun hxy => hbefore.not_surrounds hspaced.nodeGap hspaced.rankGap x y hxy.symm
  · obtain ⟨r, row, a, hr, ha, haid, rfl, hu⟩ := Drawing.exists_spot_of_centre hp
    obtain ⟨s, row', b, hs, hb, -, rfl, hv⟩ := Drawing.exists_spot_of_centre hq
    have hrank : ∀ {id n}, InBatch (Drawing.ids (d.rowsOf options g)) n id →
        (Drawing.ofRows options (d.rowsOf options g)).ranks.get? id = some n := by
      intro id n hid
      rw [Table.get?_eq_some_iff hranked.rankKeys.1, Drawing.ranks_ofRows]
      exact Digraph.mem_numbered.2 hid
    have hlt : r < s := hranked.rising hcycle u v r s huv (hrank hu) (hrank hv)
    have hdistance := List.pairwise_iff_getElem.1
      (Drawing.pairwise_spots options _ 0 (d.rowsOf options g)) r s
      (List.getElem?_eq_some_iff.1 hr).1 (List.getElem?_eq_some_iff.1 hs).1 hlt
    rw [(List.getElem?_eq_some_iff.1 hr).2, (List.getElem?_eq_some_iff.1 hs).2] at hdistance
    refine Drawing.advances_of_le hspaced.rankGap ?_ (hdistance a ha b hb)
    obtain ⟨boxes, hboxes, main, hspots⟩ :=
      Drawing.exists_rowSpots_of_mem_spots (List.mem_of_getElem? hr)
    obtain ⟨node, hnode, heq⟩ := Drawing.exists_node_of_mem_boxes hboxes
      (Drawing.box_mem_of_mem_rowSpots (hspots ▸ ha))
    have hsized := hspaced.sized _ node hnode
    rw [heq, Box.ofNode]
    split
    · exact hsized.1
    · exact hsized.2

/-- With gaps and margins, a diagram whose edges have an order has a drawing, and it is proper. -/
theorem exists_isProper (horder : d.HasEdgeOrder) (h : d.Spaced options) :
    ∃ drawing, d.drawing options = .ok drawing ∧ d.IsProper options drawing := by
  obtain ⟨g, hranked⟩ := exists_rankedBy horder h.ends
  exact ⟨_, hranked.drawing_eq h.toDrawable, hranked.isProper h⟩

/-- A diagram with gaps and margins has a drawing, and every drawing of it is proper. -/
theorem drawing_isProper (d : Diagram) (options : Options) (h : d.Spaced options) :
    (d.HasTextIds → ∃ drawing, d.drawing options = .ok drawing) ∧
      ∀ drawing, d.drawing options = .ok drawing → d.IsProper options drawing := by
  refine ⟨fun hids => ?_, fun drawing hdrawing => ?_⟩
  · obtain ⟨drawing, hdrawing, -⟩ := exists_isProper hids.hasEdgeOrder h
    exact ⟨drawing, hdrawing⟩
  · obtain ⟨l, hl, -⟩ := Outcome.bind_eq_ok.1 hdrawing
    obtain ⟨found, hfound, hproper⟩ := exists_isProper (hasEdgeOrder_of_layering hl) h
    cases hdrawing.symm.trans hfound
    exact hproper

/-- The variables of the bypass with other sizes, in floating point. -/
def resized : Diagram :=
  { bypass with
    nodes := bypass.nodes.map fun (id, node) =>
      (id, { node with width := .float (.rational 151), height := .float (.rational 45) }) }

theorem size_resized {id : String} {node : Node} (h : resized.nodes.get? id = some node) :
    node.width = .float (.rational 151) ∧ node.height = .float (.rational 45) := by
  rw [resized, Table.get?_map] at h
  obtain ⟨old, -, rfl⟩ := Option.map_eq_some_iff.1 h
  exact ⟨rfl, rfl⟩

theorem spaced_resized : resized.Spaced .standard where
  ends := by decide +kernel
  names := by decide +kernel
  sizes id node hnode := by
    obtain ⟨hwidth, hheight⟩ := size_resized hnode
    rw [hwidth, hheight]
    exact ⟨Value.isExtent_float 151, Value.isExtent_float 45⟩
  spacings := Options.measured_standard
  extents := extents_of_load (by decide +kernel) (by decide +kernel) (by decide +kernel)
    (by decide +kernel)
  sized id node hnode := by
    obtain ⟨hwidth, hheight⟩ := size_resized hnode
    rw [hwidth, hheight]
    decide +kernel
  nodeGap := by decide
  rankGap := by decide
  marginX := by decide
  marginY := by decide

/-- Past the bypass the third variable lies further right than the first. -/
theorem drawing_isProper_bypass :
    ∃ drawing, resized.drawing .standard = .ok drawing ∧ resized.IsProper .standard drawing ∧
      ∃ p q, drawing.centres.get? "var.a" = some p ∧ drawing.centres.get? "var.c" = some q ∧
        p.1 < q.1 := by
  have hids : bypass.HasTextIds := hasTextIds_ofVariables _ _
  obtain ⟨drawing, hdrawing⟩ := (drawing_isProper resized .standard spaced_resized).1 hids
  have hproper := (drawing_isProper resized .standard spaced_resized).2 drawing hdrawing
  have hnode : ∀ id, resized.hasNode id = true → ∃ p, drawing.centres.get? id = some p := by
    intro id hid
    obtain ⟨node, hnode⟩ := Option.isSome_iff_exists.1 hid
    obtain ⟨p, hp, -⟩ := hproper.within id node hnode
    exact ⟨p, hp⟩
  obtain ⟨p, hp⟩ := hnode "var.a" (by decide +kernel)
  obtain ⟨q, hq⟩ := hnode "var.c" (by decide +kernel)
  have hcycle : NoCycle resized.links :=
    Digraph.noCycle_of_increasing fun _ _ => lt_of_mem_links_bypass
  exact ⟨drawing, hdrawing, hproper, p, q, hp, hq,
    hproper.advancing hcycle "var.a" "var.c" p q (by decide +kernel) hp hq⟩

end Diagram

end BlockDiagram
