import BlockDiagram.Proofs.Digraph.Feedback
import BlockDiagram.Proofs.Digraph.Tally
import Mathlib.Algebra.Order.BigOperators.Group.List
import Mathlib.Algebra.Order.Ring.Nat

/-!
# Few links point back

In the order in which the vertices are lined up no link points back to a source or from a sink. What
points back are links to a vertex that was richest when it was taken, and of those there are no more
than of links from it, because the surpluses of all vertices that were left add up to zero. So at
most half of the links point back, and none does if there is no cycle.

* `pairwise_peel`: what holds of a vertex that is picked and of those that are left at the time.
* `inDegree_richest_le`: no fewer links leave the richest vertex than enter it.
* `two_mul_backwardIn_le`: at most half of the links among the vertices that are left point back.
* `fewTurned_withoutCycles`: what is turned to leave no cycle.
-/

namespace BlockDiagram.Digraph

variable {g : Digraph} {rest : List String}

/-- Vertices and links are listed once, links join vertices, and no link is a loop. -/
structure IsSimple (g : Digraph) : Prop where
  vertices_nodup : g.vertices.Nodup
  links_nodup : g.links.Nodup
  closed : g.IsClosed
  loopless : ∀ v, (v, v) ∉ g.links

/-- Whether a link points back in an order: its head comes before its tail. -/
def pointsBack (order : List String) (arc : String × String) : Bool :=
  order.idxOf arc.2 < order.idxOf arc.1

/-- The number of links that point back in an order. -/
def backward (g : Digraph) (order : List String) : Nat := g.links.countP (pointsBack order)

/-- Whether both ends of a link are among some vertices. -/
def isWithin (among : List String) (arc : String × String) : Bool :=
  among.contains arc.1 && among.contains arc.2

/-! ## Orders -/

theorem pointsBack_iff {order : List String} {u v : String} :
    pointsBack order (u, v) = true ↔ order.idxOf v < order.idxOf u :=
  decide_eq_true_iff

/-- A link that points back in an order points from a later vertex to an earlier one. -/
theorem rel_of_pointsBack {R : String → String → Prop} {order : List String} {u v : String}
    (horder : order.Pairwise R) (hu : u ∈ order) (h : pointsBack order (u, v) = true) : R v u := by
  rw [pointsBack_iff] at h
  have hlt := List.idxOf_lt_length_of_mem hu
  have hrel := List.pairwise_iff_getElem.1 horder _ _ (h.trans hlt) hlt h
  rwa [List.getElem_idxOf, List.getElem_idxOf] at hrel

/-- A link that points back in two orders one after the other points back in one of them, or from
the second to the first. -/
theorem pointsBack_append {xs ys : List String} {u v : String}
    (h : pointsBack (xs ++ ys) (u, v) = true) :
    (u ∈ xs ∧ v ∈ xs ∧ pointsBack xs (u, v) = true) ∨ (u ∉ xs ∧ v ∈ xs) ∨
      (u ∉ xs ∧ v ∉ xs ∧ pointsBack ys (u, v) = true) := by
  simp only [pointsBack_iff, List.idxOf_append] at h ⊢
  by_cases hu : u ∈ xs
  · by_cases hv : v ∈ xs
    · exact .inl ⟨hu, hv, by simpa [hu, hv] using h⟩
    · have hlt := List.idxOf_lt_length_of_mem hu
      simp only [hu, hv, if_true, if_false] at h
      omega
  · by_cases hv : v ∈ xs
    · exact .inr (.inl ⟨hu, hv⟩)
    · simp only [hu, hv, if_false] at h
      exact .inr (.inr ⟨hu, hv, by omega⟩)

theorem pointsBack_cons {first : String} {others : List String} {u v : String}
    (h : pointsBack (first :: others) (u, v) = true) :
    u ≠ first ∧ (v = first ∨ pointsBack others (u, v) = true) := by
  simp only [pointsBack_iff] at h ⊢
  by_cases hu : u = first
  · rw [hu, List.idxOf_cons_self] at h
    exact absurd h (Nat.not_lt_zero _)
  · refine ⟨hu, ?_⟩
    by_cases hv : v = first
    · exact .inl hv
    · rw [List.idxOf_cons_ne _ (Ne.symm hu), List.idxOf_cons_ne _ (Ne.symm hv)] at h
      exact .inr (Nat.lt_of_succ_lt_succ h)

/-! ## Peeling -/

/-- What holds of every vertex that is picked and of all that are left at the time holds along the
batches, and of the batches and what is left in the end. -/
theorem pairwise_peel {pick : List String → String → Bool} {R : String → String → Prop}
    (hpick : ∀ rest, ∀ v ∈ picked pick rest, ∀ u ∈ rest, R v u) (rest : List String) :
    (peel pick rest).1.flatten.Pairwise R ∧
      ∀ v ∈ (peel pick rest).1.flatten, ∀ u ∈ (peel pick rest).2, R v u := by
  induction rest using peel.induct pick with
  | case1 rest hnil =>
    rw [peel_of_picked_eq_nil hnil]
    exact ⟨List.Pairwise.nil, fun v hv => absurd hv List.not_mem_nil⟩
  | case2 rest hpicked _ _ _ ih =>
    obtain ⟨hbatches, hleft⟩ := ih
    have hsub : ∀ u, u ∈ (peel pick (unpicked pick rest)).1.flatten ∨
        u ∈ (peel pick (unpicked pick rest)).2 → u ∈ rest := by
      intro u hu
      have hmem := (perm_peel pick (unpicked pick rest)).mem_iff.1 (List.mem_append.2 hu)
      exact List.mem_of_mem_filter hmem
    rw [peel_of_picked_ne_nil hpicked]
    refine ⟨List.pairwise_append.2 ⟨?_, hbatches, ?_⟩, fun v hv u hu => ?_⟩
    · exact List.pairwise_of_forall_mem_list fun v hv u hu =>
        hpick rest v hv u (List.mem_of_mem_filter hu)
    · exact fun v hv u hu => hpick rest v hv u (hsub u (.inl hu))
    · rcases List.mem_append.1 hv with hv | hv
      · exact hpick rest v hv u (hsub u (.inr hu))
      · exact hleft v hv u hu

theorem isSink_iff {among : List String} {v : String} :
    g.isSink among v = true ↔ ∀ u, (v, u) ∈ g.links → u ∉ among := by
  simp [isSink, outDegree, List.countP_eq_zero]

/-- No link enters a source from later ones or from what is left. -/
theorem pairwise_sources (g : Digraph) (rest : List String) :
    (peel g.isSource rest).1.flatten.Pairwise (fun v u => (u, v) ∉ g.links) ∧
      ∀ v ∈ (peel g.isSource rest).1.flatten, ∀ u ∈ (peel g.isSource rest).2, (u, v) ∉ g.links :=
  pairwise_peel (fun _ _ hv _ hu hlink => (mem_picked_isSource.1 hv).2 _ hlink hu) rest

/-- No link leaves a sink for later ones or for what is left. -/
theorem pairwise_sinks (g : Digraph) (rest : List String) :
    (peel g.isSink rest).1.flatten.Pairwise (fun v u => (v, u) ∉ g.links) ∧
      ∀ v ∈ (peel g.isSink rest).1.flatten, ∀ u ∈ (peel g.isSink rest).2, (v, u) ∉ g.links :=
  pairwise_peel (R := fun v u => (v, u) ∉ g.links)
    (fun _ _ hv _ hu hlink => isSink_iff.1 (List.mem_filter.1 hv).2 _ hlink hu) rest

theorem mem_of_mem_left {pick : List String → String → Bool} {v : String}
    (h : v ∈ (peel pick rest).2) : v ∈ rest :=
  (perm_peel pick rest).mem_iff.1 (List.mem_append_right _ h)

theorem nodup_left {pick : List String → String → Bool} (h : rest.Nodup) :
    (peel pick rest).2.Nodup :=
  (List.nodup_append.1 ((perm_peel pick rest).nodup_iff.2 h)).2.1

/-- A link that points back when sources come first and sinks last points back among the vertices
between them. -/
theorem pointsBack_between {between : List String} {u v : String}
    (hbetween : ∀ w, w ∈ between ↔ w ∈ (peel g.isSource (peel g.isSink rest).2).2)
    (hlink : (u, v) ∈ g.links) (hu : u ∈ rest)
    (h : pointsBack ((peel g.isSource (peel g.isSink rest).2).1.flatten ++ between
      ++ (peel g.isSink rest).1.flatten.reverse) (u, v) = true) :
    u ∈ between ∧ v ∈ between ∧ pointsBack between (u, v) = true := by
  obtain ⟨hsinks, hsinksLeft⟩ := pairwise_sinks g rest
  obtain ⟨hsources, hsourcesLeft⟩ := pairwise_sources g (peel g.isSink rest).2
  -- A vertex is a sink, a source or between them.
  have hsink : u ∈ (peel g.isSink rest).1.flatten ∨ u ∈ (peel g.isSink rest).2 :=
    List.mem_append.1 ((perm_peel g.isSink rest).mem_iff.2 hu)
  have hinner : ∀ w, w ∈ (peel g.isSource (peel g.isSink rest).2).1.flatten ++ between ↔
      w ∈ (peel g.isSink rest).2 := by
    intro w
    rw [List.mem_append, hbetween, ← List.mem_append, (perm_peel g.isSource _).mem_iff]
  rcases pointsBack_append h with ⟨hu', hv', h⟩ | ⟨hu', hv'⟩ | ⟨hu', -, h⟩
  · rcases pointsBack_append h with ⟨hu, -, h⟩ | ⟨hu, hv⟩ | ⟨hu, hv, h⟩
    · exact absurd hlink (rel_of_pointsBack hsources hu h)
    · have hleft := (List.mem_append.1 hu').resolve_left hu
      exact absurd hlink (hsourcesLeft v hv u ((hbetween u).1 hleft))
    · exact ⟨(List.mem_append.1 hu').resolve_left hu, (List.mem_append.1 hv').resolve_left hv, h⟩
  · rw [hinner] at hu' hv'
    exact absurd hlink (hsinksLeft u (hsink.resolve_right hu') v hv')
  · rw [hinner] at hu'
    have hmem := List.mem_reverse.2 (hsink.resolve_right hu')
    exact absurd hlink (rel_of_pointsBack (List.pairwise_reverse.2 hsinks) hmem h)

/-! ## Counting links -/

section Counting

variable {α : Type} {l : List α} {p q r : α → Bool}

theorem countP_le_add (h : ∀ a ∈ l, r a = true → p a = true ∨ q a = true) :
    l.countP r ≤ l.countP p + l.countP q := by
  induction l with
  | nil => simp
  | cons a l ih =>
    have hrest := ih fun a ha => h a (List.mem_cons_of_mem _ ha)
    have hfirst := h a List.mem_cons_self
    rw [List.countP_cons, List.countP_cons, List.countP_cons]
    cases hr : r a <;> cases hp : p a <;> cases hq : q a <;> simp_all <;> omega

theorem add_le_countP (hp : ∀ a ∈ l, p a = true → r a = true ∧ q a = false)
    (hq : ∀ a ∈ l, q a = true → r a = true) : l.countP p + l.countP q ≤ l.countP r := by
  induction l with
  | nil => simp
  | cons a l ih =>
    have hrest := ih (fun a ha => hp a (List.mem_cons_of_mem _ ha))
      fun a ha => hq a (List.mem_cons_of_mem _ ha)
    have hpFirst := hp a List.mem_cons_self
    have hqFirst := hq a List.mem_cons_self
    rw [List.countP_cons, List.countP_cons, List.countP_cons]
    cases hr : r a <;> cases hp : p a <;> cases hq : q a <;> simp_all <;> omega

/-- Items that are counted under each of some names are counted once. -/
theorem sum_countP (name : α → String) {names : List String} (hnames : names.Nodup) :
    (names.map fun v => l.countP fun a => name a == v && q a).sum
      = l.countP fun a => names.contains (name a) && q a := by
  induction names with
  | nil => simp
  | cons v names ih =>
    obtain ⟨hnew, hnames⟩ := List.nodup_cons.1 hnames
    rw [List.map_cons, List.sum_cons, ih hnames]
    refine Nat.le_antisymm (add_le_countP ?_ ?_) (countP_le_add ?_)
    · intro a _ ha
      simp only [Bool.and_eq_true, beq_iff_eq] at ha
      rw [ha.1]
      simp [ha.2, hnew]
    · intro a _ ha
      simp only [Bool.and_eq_true, List.contains_cons, Bool.or_eq_true] at ha ⊢
      exact ⟨.inr ha.1, ha.2⟩
    · intro a _ ha
      simp only [Bool.and_eq_true, List.contains_cons, Bool.or_eq_true] at ha ⊢
      exact ha.1.imp (⟨·, ha.2⟩) (⟨·, ha.2⟩)

end Counting

theorem outDegree_eq_countP (g : Digraph) (among : List String) (v : String) :
    g.outDegree among v = g.links.countP fun a => a.1 == v && among.contains a.2 := by
  rw [outDegree, successors, List.countP_filterMap]
  refine List.countP_congr fun a _ => ?_
  by_cases h : a.1 = v <;> simp [h]

theorem inDegree_eq_countP (g : Digraph) (among : List String) (v : String) :
    g.inDegree among v = g.links.countP fun a => a.2 == v && among.contains a.1 := by
  rw [inDegree, predecessors, List.countP_filterMap]
  refine List.countP_congr fun a _ => ?_
  by_cases h : a.2 = v <;> simp [h]

theorem sum_outDegree (g : Digraph) (h : rest.Nodup) :
    (rest.map (g.outDegree rest)).sum = g.links.countP (isWithin rest) := by
  rw [List.map_congr_left fun v _ => g.outDegree_eq_countP rest v, sum_countP Prod.fst h]
  rfl

theorem sum_inDegree (g : Digraph) (h : rest.Nodup) :
    (rest.map (g.inDegree rest)).sum = g.links.countP (isWithin rest) := by
  rw [List.map_congr_left fun v _ => g.inDegree_eq_countP rest v, sum_countP Prod.snd h]
  refine List.countP_congr fun a _ => ?_
  rw [isWithin, Bool.and_comm]

/-! ## The richest vertex -/

theorem surplus_le_richest (g : Digraph) (among : List String) (first : String)
    (others : List String) : ∀ v ∈ first :: others,
      g.surplus among v ≤ g.surplus among (g.richest among first others) := by
  induction others generalizing first with
  | nil =>
    intro v hv
    rw [List.mem_singleton.1 hv]
    exact Int.le_refl _
  | cons second others ih =>
    intro v hv
    rw [richest, List.foldl_cons, ← richest]
    have hnext := ih (if g.surplus among first < g.surplus among second then second else first)
    have hbest := hnext _ List.mem_cons_self
    rcases List.mem_cons.1 hv with rfl | hv
    · split at hbest <;> split <;> omega
    · rcases List.mem_cons.1 hv with rfl | hv
      · split at hbest <;> split <;> omega
      · exact hnext v (List.mem_cons_of_mem _ hv)

/-- No fewer links leave the richest vertex than enter it. -/
theorem inDegree_richest_le {first : String} {others : List String}
    (h : (first :: others).Nodup) :
    g.inDegree (first :: others) (g.richest (first :: others) first others)
      ≤ g.outDegree (first :: others) (g.richest (first :: others) first others) := by
  -- Otherwise more links would enter every vertex than leave it.
  by_contra hless
  have hpoor : ∀ v ∈ first :: others,
      g.outDegree (first :: others) v < g.inDegree (first :: others) v := by
    intro v hv
    have hle := g.surplus_le_richest (first :: others) first others v hv
    rw [surplus, surplus] at hle
    omega
  have hlt := List.sum_lt_sum_of_ne_nil (List.cons_ne_nil first others) _ _ hpoor
  rw [g.sum_outDegree h, g.sum_inDegree h] at hlt
  exact absurd hlt (Nat.lt_irrefl _)

/-! ## Half of the links -/

/-- The number of links among some vertices that point back in an order. -/
def backwardIn (g : Digraph) (among order : List String) : Nat :=
  g.links.countP fun arc => isWithin among arc && pointsBack order arc

theorem isWithin_iff {among : List String} {arc : String × String} :
    isWithin among arc = true ↔ arc.1 ∈ among ∧ arc.2 ∈ among := by
  rw [isWithin, Bool.and_eq_true, List.contains_iff_mem, List.contains_iff_mem]

theorem backwardIn_of_nil (h : (peel g.isSource (peel g.isSink rest).2).2 = []) :
    g.backwardIn rest (g.greedyOrder rest) = 0 := by
  refine List.countP_eq_zero.2 fun ⟨u, v⟩ hlink hback => ?_
  rw [Bool.and_eq_true, isWithin_iff, greedyOrder_of_nil h] at hback
  obtain ⟨⟨hu, -⟩, hback⟩ := hback
  have hbetween : ∀ w, w ∈ [] ↔ w ∈ (peel g.isSource (peel g.isSink rest).2).2 := by
    intro w
    rw [h]
  rw [← List.append_nil (peel g.isSource (peel g.isSink rest).2).1.flatten] at hback
  exact absurd (pointsBack_between hbetween hlink hu hback).1 List.not_mem_nil

section Round

/-! One round: the richest of the vertices between sources and sinks is taken, the others are left
to later rounds. -/

variable {first best : String} {others later : List String}
  (hleft : (peel g.isSource (peel g.isSink rest).2).2 = first :: others)
  (hbest : g.richest (first :: others) first others = best)
  (hlater : (first :: others).erase best = later)

include hbest in
theorem mem_of_richest_eq : best ∈ first :: others :=
  hbest ▸ g.richest_mem (first :: others) first others

include hleft hbest hlater

theorem pointsBack_of_cons {u v : String} (hlink : (u, v) ∈ g.links) (hu : u ∈ rest)
    (h : pointsBack (g.greedyOrder rest) (u, v) = true) :
    u ∈ later ∧ (v = best ∨ v ∈ later ∧ pointsBack (g.greedyOrder later) (u, v) = true) := by
  have hperm : (best :: g.greedyOrder later).Perm (first :: others) := by
    rw [← hlater]
    exact ((g.perm_greedyOrder _).cons best).trans
      (List.perm_cons_erase (mem_of_richest_eq hbest)).symm
  have hkept : ∀ w ∈ best :: g.greedyOrder later, w ≠ best → w ∈ later :=
    fun w hw hne => (g.perm_greedyOrder later).mem_iff.1 ((List.mem_cons.1 hw).resolve_left hne)
  rw [greedyOrder_of_cons hleft, hbest, hlater] at h
  obtain ⟨hu', hv', h⟩ := pointsBack_between (fun w => by rw [hleft, hperm.mem_iff]) hlink hu h
  obtain ⟨hne, h⟩ := pointsBack_cons h
  refine ⟨hkept u hu' hne, ?_⟩
  by_cases hv : v = best
  · exact .inl hv
  · exact .inr ⟨hkept v hv' hv, h.resolve_left hv⟩

/-- What points back enters the richest vertex, or points back in a later round. -/
theorem backwardIn_of_cons :
    g.backwardIn rest (g.greedyOrder rest)
      ≤ g.inDegree (first :: others) best + g.backwardIn later (g.greedyOrder later) := by
  rw [inDegree_eq_countP]
  refine countP_le_add fun ⟨u, v⟩ hlink hback => ?_
  rw [Bool.and_eq_true, isWithin_iff] at hback
  obtain ⟨⟨hu, -⟩, hback⟩ := hback
  obtain ⟨hu, hv | ⟨hv, hback⟩⟩ := pointsBack_of_cons hleft hbest hlater hlink hu hback
  · left
    rw [← hlater] at hu
    simpa [hv] using List.mem_of_mem_erase hu
  · right
    rw [Bool.and_eq_true, isWithin_iff]
    exact ⟨⟨hu, hv⟩, hback⟩

/-- Links to and from the richest vertex are not among those that are left. -/
theorem degrees_add_le (hloop : ∀ v, (v, v) ∉ g.links) (hrest : rest.Nodup) :
    g.inDegree (first :: others) best
        + (g.outDegree (first :: others) best + g.links.countP (isWithin later))
      ≤ g.links.countP (isWithin rest) := by
  have hnodup : (first :: others).Nodup := hleft ▸ nodup_left (nodup_left hrest)
  have hmem : ∀ w ∈ later, w ∈ first :: others ∧ w ≠ best := by
    intro w hw
    rw [← hlater, hnodup.mem_erase_iff] at hw
    exact ⟨hw.2, hw.1⟩
  have hsub : ∀ w ∈ first :: others, w ∈ rest :=
    fun w hw => mem_of_mem_left (mem_of_mem_left (hleft ▸ hw))
  have hbestMem := mem_of_richest_eq hbest
  -- Without loops, no link that leaves the richest vertex enters it.
  have hout : g.outDegree (first :: others) best + g.links.countP (isWithin later)
      ≤ g.links.countP fun arc => isWithin (first :: others) arc && arc.2 != best := by
    rw [outDegree_eq_countP]
    refine add_le_countP ?_ ?_
    · rintro ⟨u, v⟩ hlink h
      simp only [Bool.and_eq_true, beq_iff_eq, List.contains_iff_mem] at h
      obtain ⟨rfl, hv⟩ := h
      have hne : v ≠ u := by
        rintro rfl
        exact hloop v hlink
      rw [Bool.and_eq_true, isWithin_iff, bne_iff_ne, ← Bool.not_eq_true, isWithin_iff]
      exact ⟨⟨⟨hbestMem, hv⟩, hne⟩, fun hwithin => (hmem u hwithin.1).2 rfl⟩
    · rintro ⟨u, v⟩ - h
      rw [isWithin_iff] at h
      rw [Bool.and_eq_true, isWithin_iff, bne_iff_ne]
      exact ⟨⟨(hmem u h.1).1, (hmem v h.2).1⟩, (hmem v h.2).2⟩
  refine (Nat.add_le_add_left hout _).trans ?_
  rw [inDegree_eq_countP]
  refine add_le_countP ?_ ?_
  · rintro ⟨u, v⟩ - h
    simp only [Bool.and_eq_true, beq_iff_eq, List.contains_iff_mem] at h
    obtain ⟨rfl, hu⟩ := h
    rw [isWithin_iff]
    exact ⟨⟨hsub u hu, hsub v hbestMem⟩, by simp⟩
  · rintro ⟨u, v⟩ - h
    rw [Bool.and_eq_true, isWithin_iff] at h
    rw [isWithin_iff]
    exact ⟨hsub u h.1.1, hsub v h.1.2⟩

end Round

/-- At most half of the links among some vertices point back when these are lined up. -/
theorem two_mul_backwardIn_le (hloop : ∀ v, (v, v) ∉ g.links) (hrest : rest.Nodup) :
    2 * g.backwardIn rest (g.greedyOrder rest) ≤ g.links.countP (isWithin rest) := by
  induction rest using greedyOrder.induct g with
  | case1 rest sinks sources ih =>
    simp only [sources, sinks] at ih
    cases hleft : (peel g.isSource (peel g.isSink rest).2).2 with
    | nil =>
      rw [backwardIn_of_nil hleft]
      exact Nat.zero_le _
    | cons first others =>
      have hnodup : (first :: others).Nodup := hleft ▸ nodup_left (nodup_left hrest)
      have hback := backwardIn_of_cons hleft rfl rfl
      have hdegrees := degrees_add_le hleft rfl rfl hloop hrest
      have hbest := g.inDegree_richest_le hnodup
      have hlater := ih first others hleft (hnodup.erase _)
      omega

/-! ## Taking cycles out -/

/-- The vertices of an acyclic graph can be lined up so that no link points back. -/
theorem noCycle_of_isAcyclic (hclosed : g.IsClosed) (hloop : ∀ v, (v, v) ∉ g.links)
    (h : g.isAcyclic = true) : NoCycle g.links := by
  have hmem : ∀ v ∈ g.vertices, v ∈ g.levels.flatten :=
    fun v hv => (perm_flatten_levels h).mem_iff.2 hv
  refine noCycle_of_increasing (f := g.levels.flatten.idxOf) fun u v hlink => ?_
  have hu := hmem u (hclosed u v hlink).1
  rcases Nat.lt_trichotomy (g.levels.flatten.idxOf u) (g.levels.flatten.idxOf v) with
    hlt | heq | hgt
  · exact hlt
  · rw [List.idxOf_inj hu] at heq
    subst heq
    exact absurd hlink (hloop u)
  · have hsources := (pairwise_sources g g.vertices).1
    exact absurd hlink (rel_of_pointsBack hsources hu (pointsBack_iff.2 hgt))

theorem backward_eq (hclosed : g.IsClosed) (order : List String) :
    g.backward order = g.backwardIn g.vertices order := by
  refine List.countP_congr fun ⟨u, v⟩ hlink => ?_
  rw [Bool.and_eq_true, isWithin_iff]
  exact ⟨fun h => ⟨hclosed u v hlink, h⟩, And.right⟩

theorem backward_of_noCycle (hclosed : g.IsClosed) (h : NoCycle g.links) :
    g.backward (g.greedyOrder g.vertices) = 0 := by
  rw [backward_eq hclosed]
  exact backwardIn_of_nil (eq_nil_of_noCycle h fun _ => exists_link_of_left)

theorem mem_links_withoutCycles (h : g.IsSimple) {arc : String × String} :
    arc ∈ g.withoutCycles.links ↔ ∃ link ∈ g.links,
      arc = if pointsBack (g.greedyOrder g.vertices) link then link.swap else link := by
  rw [withoutCycles]
  split
  · next hacyclic =>
    have hzero := backward_of_noCycle h.closed (noCycle_of_isAcyclic h.closed h.loopless hacyclic)
    have hkept : ∀ link ∈ g.links,
        (if pointsBack (g.greedyOrder g.vertices) link then link.swap else link) = link :=
      fun link hlink => if_neg (List.countP_eq_zero.1 hzero link hlink)
    constructor
    · exact fun harc => ⟨arc, harc, (hkept arc harc).symm⟩
    · rintro ⟨link, hlink, rfl⟩
      rw [hkept link hlink]
      exact hlink
  · rw [turned, mem_links_ofLists, List.mem_map]
    refine exists_congr fun link => and_congr_right fun _ => ?_
    rw [eq_comm, pointsBack]
    simp only [decide_eq_true_eq]
    rfl

theorem noCycle_withoutCycles (h : g.IsSimple) : NoCycle g.withoutCycles.links := by
  rw [withoutCycles]
  split
  · next hacyclic => exact noCycle_of_isAcyclic h.closed h.loopless hacyclic
  · exact noCycle_turned h.loopless fun u v hlink => mem_greedyOrder (h.closed u v hlink).1

theorem isSimple_withoutCycles (h : g.IsSimple) : g.withoutCycles.IsSimple where
  vertices_nodup := nodup_vertices_withoutCycles h.vertices_nodup
  links_nodup := by
    rw [withoutCycles]
    split
    · exact h.links_nodup
    · exact Text.eraseDups_nodup _
  closed := isClosed_withoutCycles h.closed
  loopless v hlink := Nat.one_ne_zero (noCycle_withoutCycles h v 1 (.go (.stay v) hlink))

/-- In a simple graph the vertices are lined up, each once, so that at most half of the links point
back, and none does if there is no cycle; the line is the one by degrees that are kept up. To leave
no cycle, just the links that point back are turned, where links that then coincide are one; a graph
without cycles is left as it is. -/
theorem fewTurned_withoutCycles (h : g.IsSimple) :
    Tally.order g (Tally.start g) = g.greedyOrder g.vertices ∧
      (g.greedyOrder g.vertices).Perm g.vertices ∧
      2 * g.backward (g.greedyOrder g.vertices) ≤ g.links.length ∧
      (NoCycle g.links → g.backward (g.greedyOrder g.vertices) = 0) ∧
      NoCycle g.withoutCycles.links ∧ g.withoutCycles.IsSimple ∧
      (∀ v, v ∈ g.withoutCycles.vertices ↔ v ∈ g.vertices) ∧
      (∀ arc, arc ∈ g.withoutCycles.links ↔ ∃ link ∈ g.links,
        arc = if pointsBack (g.greedyOrder g.vertices) link then link.swap else link) ∧
      (NoCycle g.links → g.withoutCycles = g) := by
  have hhalf : 2 * g.backward (g.greedyOrder g.vertices) ≤ g.links.length := by
    rw [backward_eq h.closed]
    exact (two_mul_backwardIn_le h.loopless h.vertices_nodup).trans List.countP_le_length
  have hline := (Tally.isRight_start h.vertices_nodup h.closed).order_eq
  exact ⟨hline, g.perm_greedyOrder g.vertices, hhalf, backward_of_noCycle h.closed,
    noCycle_withoutCycles h, isSimple_withoutCycles h, fun _ => mem_vertices_withoutCycles,
    fun _ => mem_links_withoutCycles h, withoutCycles_of_noCycle⟩

/-- A triangle with one side in both directions: two cycles share a link. -/
def twoCycles : Digraph :=
  ⟨["a", "b", "c"], [("a", "b"), ("b", "a"), ("b", "c"), ("c", "a")]⟩

theorem fewTurned_twoCycles : ¬ NoCycle twoCycles.links ∧ twoCycles.IsSimple ∧
    2 * twoCycles.backward (twoCycles.greedyOrder twoCycles.vertices) ≤ 4 ∧
    NoCycle twoCycles.withoutCycles.links := by
  have hcycle : ¬ NoCycle twoCycles.links := by
    intro hnone
    have hto : ("a", "b") ∈ twoCycles.links := by decide
    have hback : ("b", "a") ∈ twoCycles.links := by decide
    exact absurd (hnone "a" 2 (.go (.go (.stay "a") hto) hback)) (by decide)
  have hsimple : twoCycles.IsSimple := by
    refine ⟨by decide, by decide, fun u v hlink => ?_, fun v hlink => ?_⟩
    · simp only [twoCycles, List.mem_cons, Prod.mk.injEq, List.not_mem_nil, or_false] at hlink ⊢
      rcases hlink with ⟨rfl, rfl⟩ | ⟨rfl, rfl⟩ | ⟨rfl, rfl⟩ | ⟨rfl, rfl⟩ <;> decide
    · simp only [twoCycles, List.mem_cons, Prod.mk.injEq, List.not_mem_nil, or_false] at hlink
      rcases hlink with ⟨rfl, h⟩ | ⟨rfl, h⟩ | ⟨rfl, h⟩ | ⟨rfl, h⟩ <;> exact absurd h (by decide)
  obtain ⟨-, -, hhalf, -, hnone, -⟩ := fewTurned_withoutCycles hsimple
  exact ⟨hcycle, hsimple, hhalf, hnone⟩

end BlockDiagram.Digraph
