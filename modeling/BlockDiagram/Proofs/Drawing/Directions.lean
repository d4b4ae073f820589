import BlockDiagram.Proofs.Drawing.Ranks
import BlockDiagram.Proofs.Drawing.Spacings
import BlockDiagram.Proofs.Drawing.Transposed

/-!
# Drawings in the four directions

In every direction the nodes have the same ranks and the same order within each rank. Opposite
directions give mirror images, up to the rounding of centres, and a direction along the other axis
gives the drawing of the diagram with widths and heights exchanged.

* `Drawing.IsMirrorOf`: the mirror image from left to right.
* `Drawing.isMirrorOf_ofRows`: opposite directions mirror the spots of rows.
* `Drawing.hasRows_ofRows`: the nodes of a rank lie in order across the main axis.
* `Diagram.drawing_towards`: what the direction does to a drawing.
-/

namespace BlockDiagram

open Outcome

/-! ## Mirror images -/

/-- A drawing is the mirror image of another from left to right: they have the same bounds, every
node lies equally far down in both, and how far right it lies in the one and in the other adds up to
the width, up to the rounding of two centres. -/
structure Drawing.IsMirrorOf (p q : Drawing) : Prop where
  width : p.width = q.width
  height : p.height = q.height
  keys : p.centres.keys = q.centres.keys
  centres : ∀ id c c', p.centres.get? id = some c → q.centres.get? id = some c' →
    c.2 = c'.2 ∧ (c.1 + c'.1 - p.width).natAbs ≤ 1

/-- The coordinate of a position across the axis of a direction. -/
def Direction.across (direction : Direction) (p : Int × Int) : Int :=
  if direction.isHorizontal then p.2 else p.1

/-- A drawing has rows of nodes for its ranks, and the nodes of each row lie across the axis in
their order. -/
structure Drawing.HasRows (direction : Direction) (rows : List (List String))
    (drawing : Drawing) : Prop where
  ranks : drawing.ranks = Digraph.numbered rows
  centres : drawing.centres.keys = rows.flatten
  ordered : ∀ row ∈ rows, row.Pairwise fun u v => ∀ c c', drawing.centres.get? u = some c →
    drawing.centres.get? v = some c' → direction.across c ≤ direction.across c'

def Options.towards (options : Options) (direction : Direction) : Options :=
  { options with direction }

namespace Value

theorem roundedHalf_mono {m n : Int} (h : m ≤ n) : roundedHalf m ≤ roundedHalf n := by
  have hm := roundedHalf_bounds m
  have hn := roundedHalf_bounds n
  rcases Int.le_iff_eq_or_lt.1 h with rfl | hlt
  · exact Int.le_refl _
  · omega

end Value

namespace Drawing

open Value

variable {options : Options} {rows : List (List Box)}

theorem exists_of_get?_map {α β γ : Type} {entries : List α} {key : α → String} {f : α → β}
    {g : α → γ} {id : String} {b : β} {c : γ}
    (hf : Table.get? (entries.map fun a => (key a, f a)) id = some b)
    (hg : Table.get? (entries.map fun a => (key a, g a)) id = some c) :
    ∃ a ∈ entries, f a = b ∧ g a = c := by
  induction entries with
  | nil => cases hf
  | cons a rest ih =>
    rw [List.map_cons, Table.get?_cons] at hf hg
    split at hf
    · next hkey =>
      rw [if_pos hkey] at hg
      exact ⟨a, List.mem_cons_self, Option.some.inj hf, Option.some.inj hg⟩
    · next hkey =>
      rw [if_neg hkey] at hg
      obtain ⟨a', ha', hfg⟩ := ih hf hg
      exact ⟨a', List.mem_cons_of_mem _ ha', hfg⟩

theorem spots_towards (options : Options) (direction : Direction) (breadth start : Nat)
    (rows : List (List Box)) :
    spots (options.towards direction) breadth start rows = spots options breadth start rows := by
  induction rows generalizing start with
  | nil => rfl
  | cons row rest ih =>
    rw [spots, spots, ih]
    rfl

theorem centres_ofRows_towards (options : Options) (direction : Direction)
    (rows : List (List Box)) :
    (ofRows (options.towards direction) rows).centres
      = (spots options (breadthOf options.nodeSpacing.extent rows) 0 rows).flatten.map fun spot =>
          (spot.box.id, spot.centre (options.towards direction)
            (depthOf options.rankSpacing.extent rows)) := by
  rw [← spots_towards options direction]
  rfl

/-- From the far end, a position and the same position from the near end add up to the extent, up to
the rounding of both. -/
theorem beyond_add_beyond (margin : Value) (extent position : Nat) :
    (beyond margin position + beyond margin (2 * extent - position)
      - framed margin extent).natAbs ≤ 1 := by
  have hnear := roundedHalf_bounds (2 * margin.extent + position)
  have hfar := roundedHalf_bounds (2 * margin.extent + (2 * extent - position))
  rw [beyond, beyond, framed]
  omega

theorem beyond_mono (margin : Value) {position position' : Int} (h : position ≤ position') :
    beyond margin position ≤ beyond margin position' :=
  roundedHalf_mono (Int.add_le_add_left h _)

theorem ids_eq_map_spots (options : Options) (breadth start : Nat) (rows : List (List Box)) :
    ids rows = (spots options breadth start rows).map fun spotRow =>
      spotRow.map fun spot => spot.box.id := by
  rw [ids]
  conv_lhs => rw [← map_box_spots options breadth start rows]
  rw [List.map_map]
  exact List.map_congr_left fun spotRow _ => List.map_map

/-- The rows of boxes are those of their drawing. -/
theorem hasRows_ofRows (options : Options) (hnodup : (ids rows).flatten.Nodup) :
    (ofRows options rows).HasRows options.direction (ids rows) where
  ranks := rfl
  centres := keys_centres_ofRows options rows
  ordered row hrow := by
    have hkeys : (ofRows options rows).centres.keys.Nodup := by
      rwa [keys_centres_ofRows]
    rw [ids_eq_map_spots options (breadthOf options.nodeSpacing.extent rows) 0] at hrow
    obtain ⟨spotRow, hspots, rfl⟩ := List.mem_map.1 hrow
    have hcentre : ∀ spot ∈ spotRow, (ofRows options rows).centres.get? spot.box.id
        = some (spot.centre options (depthOf options.rankSpacing.extent rows)) :=
      fun spot hspot => (Table.get?_eq_some_iff hkeys).2
        (List.mem_map_of_mem (List.mem_flatten.2 ⟨spotRow, hspots, hspot⟩))
    obtain ⟨boxes, -, main, hrowSpots⟩ := exists_rowSpots_of_mem_spots hspots
    have hcross : spotRow.Pairwise fun a b => a.cross ≤ b.cross := by
      rw [hrowSpots]
      exact (pairwise_rowSpots _ _ _ _).imp fun h => by omega
    refine List.pairwise_map.2 (hcross.imp_of_mem fun ha hb hle c c' hc hc' => ?_)
    rw [hcentre _ ha] at hc
    rw [hcentre _ hb] at hc'
    rw [← Option.some.inj hc, ← Option.some.inj hc', Direction.across, Direction.across,
      Spot.centre, Spot.centre]
    split <;> exact beyond_mono _ (Int.ofNat_le.2 hle)

/-- Opposite directions give mirror images. -/
theorem isMirrorOf_ofRows (options : Options) (rows : List (List Box)) :
    (ofRows (options.towards .leftToRight) rows).IsMirrorOf
      (ofRows (options.towards .rightToLeft) rows) where
  width := rfl
  height := rfl
  keys := by rw [keys_centres_ofRows, keys_centres_ofRows]
  centres id c c' h h' := by
    rw [centres_ofRows_towards] at h h'
    obtain ⟨spot, -, rfl, rfl⟩ := exists_of_get?_map h h'
    exact ⟨rfl, beyond_add_beyond options.marginX _ spot.main⟩

end Drawing

namespace Diagram

variable {d : Diagram} {options : Options} {l : Layering}

/-- What a diagram needs for drawings with no more rounding than that of centres: whole sizes and
spacings, and margins and extents that are not too large in any direction. -/
structure Roomy (d : Diagram) (options : Options) : Prop where
  sizes : ∀ id node, d.nodes.get? id = some node →
    node.width.IsExtent ∧ node.height.IsExtent
  nodeSpacing : options.nodeSpacing.IsSpacing
  rankSpacing : options.rankSpacing.IsSpacing
  marginX : options.marginX.IsBounded
  marginY : options.marginY.IsBounded
  extents : ∀ l, d.layering = .ok l → ∀ direction,
    Drawing.depthOf options.rankSpacing.extent
        (Drawing.boxes d direction l.ordering) < extentLimit ∧
      Drawing.breadthOf options.nodeSpacing.extent
        (Drawing.boxes d direction l.ordering) < extentLimit

theorem Roomy.boxes (h : d.Roomy options) (hl : d.layering = .ok l) (direction : Direction) :
    Drawing.Roomy (options.towards direction) (Drawing.boxes d direction l.ordering) where
  nodeSpacing := h.nodeSpacing
  rankSpacing := h.rankSpacing
  marginX := h.marginX
  marginY := h.marginY
  whole _ hrow _ hbox := Drawing.isExtent_of_mem_boxes h.sizes hrow hbox
  filled _ hrow := Drawing.ne_nil_of_mem_boxes hrow
  depth := (h.extents l hl direction).1
  breadth := (h.extents l hl direction).2

theorem Roomy.transposed (h : d.Roomy options) : d.transposed.Roomy options.transposed where
  sizes id node hnode := by
    rw [Diagram.transposed, Table.get?_map] at hnode
    obtain ⟨old, hold, rfl⟩ := Option.map_eq_some_iff.1 hnode
    exact (h.sizes id old hold).symm
  nodeSpacing := h.nodeSpacing
  rankSpacing := h.rankSpacing
  marginX := h.marginY
  marginY := h.marginX
  extents l hl direction := by
    rw [← direction.transposed_transposed, Drawing.boxes_transposed]
    exact h.extents l (d.layering_transposed ▸ hl) direction.transposed

/-- A drawing has the boxes of all nodes on their spots. -/
theorem Roomy.eq_ofRows (h : d.Roomy options) (hl : d.layering = .ok l) {direction : Direction}
    {drawing : Drawing} (hdrawing : d.drawing (options.towards direction) = .ok drawing) :
    drawing = Drawing.ofRows (options.towards direction)
      (Drawing.boxes d direction l.ordering) := by
  obtain ⟨l', hl', hordering⟩ := drawing_eq_ok.1 hdrawing
  cases hl.symm.trans hl'
  exact (h.boxes hl direction).eq_ofRows rfl hordering

theorem Roomy.hasRows (h : d.Roomy options) (hl : d.layering = .ok l) {direction : Direction}
    {drawing : Drawing} (hdrawing : d.drawing (options.towards direction) = .ok drawing) :
    drawing.HasRows direction (Drawing.drawn d l.ordering) := by
  have hids := Drawing.ids_boxes_eq_drawn d direction l.ordering
  rw [h.eq_ofRows hl hdrawing, ← hids]
  refine Drawing.hasRows_ofRows (options.towards direction) ?_
  rw [hids]
  exact nodup_flatten_drawn d l

/-! ## Directions -/

theorem Roomy.exists_drawing (h : d.Roomy options) (hspacings : options.Measured)
    (hl : d.layering = .ok l) (direction : Direction) :
    ∃ drawing, d.drawing (options.towards direction) = .ok drawing := by
  have hboxes := h.boxes hl direction
  have hmeasured : Drawing.Measured (options.towards direction)
      (Drawing.boxes d direction l.ordering) :=
    ⟨{ hspacings with }, hboxes.whole, hboxes.filled, hboxes.depth, hboxes.breadth⟩
  exact ⟨_, drawing_eq_ok.2 ⟨l, hl, Drawing.ofOrdering_eq hmeasured⟩⟩

theorem Roomy.isMirrorOf (h : d.Roomy options) {p q : Drawing}
    (hp : d.drawing (options.towards .leftToRight) = .ok p)
    (hq : d.drawing (options.towards .rightToLeft) = .ok q) : p.IsMirrorOf q := by
  obtain ⟨l, hl, -⟩ := drawing_eq_ok.1 hp
  rw [h.eq_ofRows hl hp, h.eq_ofRows hl hq]
  exact Drawing.isMirrorOf_ofRows options (Drawing.boxes d .leftToRight l.ordering)

/-- Where there is room, drawings in all four directions have the same rows of nodes, those in
opposite directions are mirror images, and the one from the top is that from the left of the diagram
with widths and heights exchanged. With spacings below the limit there are drawings in all
directions or in none. -/
theorem drawing_towards (d : Diagram) (options : Options) (h : d.Roomy options) :
    (options.Measured → ∀ direction direction',
      (∃ p, d.drawing (options.towards direction) = .ok p) →
        ∃ q, d.drawing (options.towards direction') = .ok q) ∧
    (∃ rows : List (List String), ∀ direction p, d.drawing (options.towards direction) = .ok p →
      p.HasRows direction rows ∧ rows.flatten.Nodup ∧
        ∀ id, id ∈ rows.flatten ↔ id ∈ d.nodes.keys ∧ Layering.isPlaceholder id = false) ∧
    (∀ p q, d.drawing (options.towards .leftToRight) = .ok p →
      d.drawing (options.towards .rightToLeft) = .ok q → p.IsMirrorOf q) ∧
    (∀ p q, d.drawing (options.towards .topToBottom) = .ok p →
      d.drawing (options.towards .bottomToTop) = .ok q → p.transposed.IsMirrorOf q.transposed) ∧
    ∀ p, d.drawing (options.towards .topToBottom) = .ok p ↔
      d.transposed.drawing (options.transposed.towards .leftToRight) = .ok p.transposed := by
  refine ⟨fun hspacings direction direction' => ?_, ?_, fun p q hp hq => h.isMirrorOf hp hq,
    fun p q hp hq => ?_, fun p => drawing_transposed_iff.symm⟩
  · rintro ⟨p, hp⟩
    obtain ⟨l, hl, -⟩ := drawing_eq_ok.1 hp
    exact h.exists_drawing hspacings hl direction'
  · cases hl : d.layering with
    | ok l =>
      exact ⟨_, fun direction p hp =>
        ⟨h.hasRows hl hp, nodup_flatten_drawn d l, fun id => mem_flatten_drawn hl⟩⟩
    | error fault =>
      refine ⟨[], fun direction p hp => ?_⟩
      obtain ⟨l, hl', -⟩ := drawing_eq_ok.1 hp
      cases hl.symm.trans hl'
  · have hp' : d.transposed.drawing (options.towards .topToBottom).transposed = .ok p.transposed :=
      drawing_transposed_iff.2 hp
    have hq' : d.transposed.drawing (options.towards .bottomToTop).transposed = .ok q.transposed :=
      drawing_transposed_iff.2 hq
    exact h.transposed.isMirrorOf hp' hq'

/-- Options with margins and spacings that all differ, some of them in floating point. -/
def unevenly : Options :=
  ⟨.leftToRight, .float (.rational 7), .int 12, .int 3, .float (.rational 4)⟩

theorem measured_unevenly : unevenly.Measured where
  nodeSpacing := Value.isSpacing_float (n := 7) (by decide)
  rankSpacing := Value.isSpacing_int 12
  nodeSpacing_lt := le_spacingLimit (by decide)
  rankSpacing_lt := le_spacingLimit (by decide)
  marginX := Value.isBounded_int (n := 3) (by decide)
  marginY := ⟨Value.isExtent_float 4, by decide⟩

theorem drawing_towards_bypass : ∃ lr rl tb bt,
    bypass.drawing (unevenly.towards .leftToRight) = .ok lr ∧
    bypass.drawing (unevenly.towards .rightToLeft) = .ok rl ∧
    bypass.drawing (unevenly.towards .topToBottom) = .ok tb ∧
    bypass.drawing (unevenly.towards .bottomToTop) = .ok bt ∧
    lr.ranks = bt.ranks ∧ lr.IsMirrorOf rl ∧ tb.transposed.IsMirrorOf bt.transposed ∧
    bypass.transposed.drawing
      ⟨.leftToRight, .float (.rational 7), .int 12, .float (.rational 4), .int 3⟩
        = .ok tb.transposed := by
  have hdrawable : bypass.Drawable .standard := drawable_ofVariables (by decide +kernel)
    (by decide +kernel) (by decide +kernel) (by decide +kernel)
  have hspacings := measured_unevenly
  have hload : ∀ direction, bypass.load (unevenly.towards direction) < extentLimit := by
    intro direction
    cases direction <;> decide +kernel
  have hroomy : bypass.Roomy unevenly :=
    ⟨hdrawable.sizes, hspacings.nodeSpacing, hspacings.rankSpacing, hspacings.marginX,
      hspacings.marginY, fun l hl direction => extents_of_load hdrawable.ends hdrawable.names
        (by decide +kernel) (hload direction) l hl⟩
  obtain ⟨g, hranked⟩ := exists_rankedBy (exists_eq_ok_of_isOk (by decide +kernel)) hdrawable.ends
  obtain ⟨hdrawn, ⟨rows, hrows⟩, hmirror, hmirror', htransposed⟩ :=
    drawing_towards bypass unevenly hroomy
  obtain ⟨lr, hlr⟩ := hroomy.exists_drawing hspacings hranked.layering .leftToRight
  obtain ⟨rl, hrl⟩ := hdrawn hspacings _ .rightToLeft ⟨lr, hlr⟩
  obtain ⟨tb, htb⟩ := hdrawn hspacings _ .topToBottom ⟨lr, hlr⟩
  obtain ⟨bt, hbt⟩ := hdrawn hspacings _ .bottomToTop ⟨lr, hlr⟩
  have hranks := (hrows _ lr hlr).1.ranks.trans (hrows _ bt hbt).1.ranks.symm
  exact ⟨lr, rl, tb, bt, hlr, hrl, htb, hbt, hranks, hmirror lr rl hlr hrl,
    hmirror' tb bt htb hbt, (htransposed tb).1 htb⟩

end Diagram

end BlockDiagram
