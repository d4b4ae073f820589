import BlockDiagram.Proofs.Digraph.Backward
import BlockDiagram.Proofs.Layering.Ordering
import Mathlib.Data.List.Perm.Basic

/-!
# An ordering has no more crossings than the one by name

Every sweep may add crossings, but only one that takes some away is kept, so no ordering that is
kept has more of them than the first one, which lists each rank by name. Crossings are counted rank
by rank; as every vertex stands on one rank, that counts the pairs of arcs that cross anywhere.

* `crossingNumber`: the pairs of arcs that cross; `crossings_eq_crossingNumber`.
* `exists_improve_eq`: what is returned is some of the sweeps, each of which took crossings away.
* `ordering_keeps_fewest`: the ranks, the crossings, and that the order of the table does not count.
-/

namespace BlockDiagram.Layering

open List (Forall₂)

/-! ## Crossings -/

/-- Whether a vertex stands before another one on a rank. -/
def isBefore (rank : List String) (v w : String) : Bool :=
  rank.contains w && decide (rank.idxOf v < rank.idxOf w)

/-- Whether two arcs join the same two neighbouring ranks, and the one that starts before the other
one ends behind it. -/
def overtakes (ordering : List (List String)) (a b : String × String) : Bool :=
  (List.range ordering.length).any fun r =>
    isBefore (ordering[r]?.getD []) a.1 b.1 && isBefore (ordering[r + 1]?.getD []) b.2 a.2

section Pairs

variable {α β : Type}

/-- The number of pairs of items that are in a relation. -/
def pairCount (items : List α) (related : α → α → Bool) : Nat :=
  (items.map fun a => items.countP (related a)).sum

/-- The number of pairs of arcs that cross, each pair taken in the order in which it starts. -/
def crossingNumber (g : Digraph) (ordering : List (List String)) : Nat :=
  pairCount g.links (overtakes ordering)

theorem countP_or {items : List α} {p q : α → Bool}
    (hdisjoint : ∀ a ∈ items, p a = true → q a = false) :
    items.countP (fun a => p a || q a) = items.countP p + items.countP q := by
  apply Nat.le_antisymm
  · exact Digraph.countP_le_add fun a _ h => (Bool.or_eq_true _ _).mp h
  · refine Digraph.add_le_countP (fun a ha hp => ⟨?_, hdisjoint a ha hp⟩) fun a _ hq => ?_
    · rw [hp, Bool.true_or]
    · rw [hq, Bool.or_true]

theorem pairCount_congr {items : List α} {p q : α → α → Bool}
    (h : ∀ a ∈ items, ∀ b ∈ items, p a b = q a b) : pairCount items p = pairCount items q := by
  refine congrArg List.sum (List.map_congr_left fun a ha => List.countP_congr fun b hb => ?_)
  rw [h a ha b hb]

theorem pairCount_false (items : List α) : pairCount items (fun _ _ => false) = 0 := by
  simp [pairCount]

theorem pairCount_or {items : List α} {p q : α → α → Bool}
    (hdisjoint : ∀ a ∈ items, ∀ b ∈ items, p a b = true → q a b = false) :
    pairCount items (fun a b => p a b || q a b) = pairCount items p + pairCount items q := by
  have hcount : (items.map fun a => items.countP fun b => p a b || q a b)
      = items.map fun a => items.countP (p a) + items.countP (q a) :=
    List.map_congr_left fun a ha => countP_or (hdisjoint a ha)
  rw [pairCount, hcount, List.sum_map_add]
  rfl

theorem sum_map_ite (items : List α) (p : α → Bool) :
    (items.map fun a => if p a = true then 1 else 0).sum = items.countP p := by
  induction items with
  | nil => rfl
  | cons a rest ih => rw [List.map_cons, List.sum_cons, ih, List.countP_cons, Nat.add_comm]

theorem pairCount_cons (a : α) (rest : List α) {p : α → α → Bool} (hself : p a a = false) :
    pairCount (a :: rest) p
      = rest.countP (p a) + rest.countP (fun b => p b a) + pairCount rest p := by
  have hcount : (rest.map fun b => (a :: rest).countP (p b))
      = rest.map fun b => (if p b a = true then 1 else 0) + rest.countP (p b) :=
    List.map_congr_left fun b _ => by rw [List.countP_cons, Nat.add_comm]
  rw [pairCount, List.map_cons, List.sum_cons, List.countP_cons, hself, hcount, List.sum_map_add,
    sum_map_ite, if_neg Bool.false_ne_true, Nat.add_zero, Nat.add_assoc, pairCount]

theorem sum_map_filterMap (f : α → Option β) (items : List α) (h : β → Nat) :
    ((items.filterMap f).map h).sum = (items.map fun a => ((f a).map h).getD 0).sum := by
  induction items with
  | nil => rfl
  | cons a rest ih =>
    rw [List.map_cons, List.sum_cons, ← ih]
    cases hf : f a with
    | none => rw [List.filterMap_cons_none hf]; simp
    | some b => rw [List.filterMap_cons_some hf]; simp

theorem pairCount_filterMap (f : α → Option β) (items : List α) (p : β → β → Bool) :
    pairCount (items.filterMap f) p
      = pairCount items fun a b => ((f a).bind fun s => (f b).map (p s)).getD false := by
  rw [pairCount, sum_map_filterMap, pairCount]
  refine congrArg List.sum (List.map_congr_left fun a _ => ?_)
  cases f a with
  | none => simp
  | some s => rw [Option.map_some, Option.getD_some, List.countP_filterMap]; rfl

end Pairs

/-- Segments that cross are counted once, in one of the two orders. -/
theorem crossingPairs_eq_pairCount (segments : List (Nat × Nat)) :
    crossingPairs segments
      = pairCount segments fun a b => decide (a.1 < b.1) && decide (b.2 < a.2) := by
  induction segments with
  | nil => rfl
  | cons a rest ih =>
    rw [pairCount_cons a rest (by simp), ← ih, crossingPairs]
    congr 1
    refine countP_or fun b _ h => ?_
    simp only [Bool.and_eq_true, decide_eq_true_eq] at h
    simp only [Bool.and_eq_false_iff, decide_eq_false_iff_not]
    omega

theorem mem_of_isBefore {rank : List String} {v w : String} (h : isBefore rank v w = true) :
    v ∈ rank ∧ w ∈ rank := by
  simp only [isBefore, Bool.and_eq_true, List.contains_iff_mem, decide_eq_true_eq] at h
  refine ⟨?_, h.1⟩
  by_contra hv
  rw [List.idxOf_eq_length hv] at h
  have hlength := List.idxOf_le_length (a := w) (l := rank)
  omega

/-- Segments between two ranks cross as the arcs do. -/
theorem crossingPairs_segments (g : Digraph) (upper lower : List String) :
    crossingPairs (segments g upper lower)
      = pairCount g.links fun a b => isBefore upper a.1 b.1 && isBefore lower b.2 a.2 := by
  rw [crossingPairs_eq_pairCount, segments, pairCount_filterMap]
  refine pairCount_congr fun a _ b _ => ?_
  have hends : (isBefore upper a.1 b.1 && isBefore lower b.2 a.2) = true →
      (upper.contains a.1 && lower.contains a.2) = true ∧
        (upper.contains b.1 && lower.contains b.2) = true := by
    intro h
    obtain ⟨hupper, hlower⟩ := Bool.and_eq_true_iff.1 h
    have hupper := mem_of_isBefore hupper
    have hlower := mem_of_isBefore hlower
    simp [hupper, hlower]
  by_cases ha : (upper.contains a.1 && lower.contains a.2) = true
  · by_cases hb : (upper.contains b.1 && lower.contains b.2) = true
    · rw [if_pos ha, if_pos hb]
      rw [Bool.and_eq_true] at ha hb
      simp only [Option.bind_some, Option.map_some, Option.getD_some, isBefore, hb.1, ha.2,
        Bool.true_and]
    · rw [if_pos ha, if_neg hb, Bool.eq_false_iff.2 fun h => hb (hends h).2]
      rfl
  · rw [if_neg ha, Bool.eq_false_iff.2 fun h => ha (hends h).1]
    rfl

theorem overtakes_cons (upper : List String) (rest : List (List String)) (a b : String × String) :
    overtakes (upper :: rest) a b
      = (isBefore upper a.1 b.1 && isBefore (rest[0]?.getD []) b.2 a.2 || overtakes rest a b) := by
  rw [overtakes, List.length_cons, List.range_succ_eq_map, List.any_cons, List.any_map]
  rfl

theorem mem_flatten_of_overtakes {ordering : List (List String)} {a b : String × String}
    (h : overtakes ordering a b = true) : a.1 ∈ ordering.flatten := by
  obtain ⟨r, hr, hbefore⟩ := List.any_eq_true.1 h
  have hlength := List.mem_range.1 hr
  have hmem := (mem_of_isBefore (Bool.and_eq_true_iff.1 hbefore).1).1
  rw [List.getElem?_eq_getElem hlength, Option.getD_some] at hmem
  exact List.mem_flatten.2 ⟨_, List.getElem_mem hlength, hmem⟩

/-- Crossings counted rank by rank are all pairs of arcs that cross, when every vertex stands in one
place. -/
theorem crossings_eq_crossingNumber (g : Digraph) {ordering : List (List String)}
    (hnodup : ordering.flatten.Nodup) : crossings g ordering = crossingNumber g ordering := by
  have hnone : ∀ rank a b, overtakes [rank] a b = false := by
    intro rank a b
    rw [overtakes_cons]
    simp [overtakes, isBefore]
  induction ordering with
  | nil => exact (pairCount_false g.links).symm
  | cons upper rest ih =>
    cases rest with
    | nil =>
      rw [crossings, crossingNumber, pairCount_congr fun a _ b _ => hnone upper a b,
        pairCount_false]
      all_goals simp
    | cons lower rest =>
      rw [List.flatten_cons, List.nodup_append] at hnodup
      obtain ⟨-, hrest, hdisjoint⟩ := hnodup
      rw [crossings, ih hrest, crossingPairs_segments, crossingNumber, crossingNumber,
        ← pairCount_or]
      · exact pairCount_congr fun a _ b _ => (overtakes_cons upper (lower :: rest) a b).symm
      · intro a _ b _ hfirst
        rw [Bool.eq_false_iff]
        intro hlater
        have hupper := (mem_of_isBefore (Bool.and_eq_true_iff.1 hfirst).1).1
        exact hdisjoint _ hupper _ (mem_flatten_of_overtakes hlater) rfl

/-! ## Ranks -/

/-- An ordering lists the ranks of a table, from the first to the highest one, and on each rank the
vertices that have it, each once. -/
structure IsOrderingOf (ranks : Table Nat) (ordering : List (List String)) : Prop where
  count : ∀ r, r < ordering.length ↔ ∃ entry ∈ ranks, r ≤ entry.2
  rank : ∀ r rank, ordering[r]? = some rank → rank.Nodup ∧ ∀ v, v ∈ rank ↔ (v, r) ∈ ranks

theorem foldl_max_le {t : Table Nat} {start bound : Nat} (hstart : start ≤ bound)
    (h : ∀ entry ∈ t, entry.2 + 1 ≤ bound) :
    t.foldl (fun n entry => max n (entry.2 + 1)) start ≤ bound := by
  induction t generalizing start with
  | nil => exact hstart
  | cons entry rest ih =>
    rw [List.foldl_cons]
    have hentry := h entry List.mem_cons_self
    exact ih (by omega) fun other hother => h other (List.mem_cons_of_mem _ hother)

variable {ranks : Table Nat}

theorem isOrderingOf_byName (hkeys : ranks.keys.Nodup) : IsOrderingOf ranks (byName ranks) where
  count r := by
    rw [byName, List.length_map, List.length_range]
    constructor
    · intro hr
      by_contra hnone
      push Not at hnone
      exact Nat.not_lt.2 (foldl_max_le (Nat.zero_le r) hnone) hr
    · rintro ⟨entry, hentry, hr⟩
      have hle := (le_foldl_max ranks 0).2 entry hentry
      omega
  rank r rank hrank := by
    obtain ⟨hlt, rfl⟩ := List.getElem?_eq_some_iff.1 hrank
    simp only [byName, List.getElem_map, List.getElem_range]
    refine ⟨(Text.nodup_sortedNames _).filter _, fun v => ?_⟩
    rw [List.mem_filter, Text.mem_sortedNames, Table.mem_keys_iff, Table.has, rankOf,
      ← Table.get?_eq_some_iff hkeys]
    cases ranks.get? v <;> simp

theorem IsOrderingOf.perm {ordering target : List (List String)} (h : IsOrderingOf ranks target)
    (hperm : Forall₂ List.Perm ordering target) : IsOrderingOf ranks ordering where
  count r := by rw [hperm.length_eq, h.count]
  rank r rank hrank := by
    obtain ⟨hlt, rfl⟩ := List.getElem?_eq_some_iff.1 hrank
    have hlt' : r < target.length := hperm.length_eq ▸ hlt
    have hsame : (ordering[r]).Perm target[r] := List.forall₂_iff_get.1 hperm |>.2 r hlt hlt'
    obtain ⟨hnodup, hmem⟩ := h.rank r _ (List.getElem?_eq_getElem hlt')
    exact ⟨hsame.nodup_iff.2 hnodup, fun v => hsame.mem_iff.trans (hmem v)⟩

/-- In an ordering every vertex stands in one place. -/
theorem IsOrderingOf.nodup_flatten {ordering : List (List String)} (h : IsOrderingOf ranks ordering)
    (hkeys : ranks.keys.Nodup) : ordering.flatten.Nodup := by
  rw [List.nodup_flatten]
  constructor
  · intro rank hrank
    obtain ⟨r, hr⟩ := List.getElem?_of_mem hrank
    exact (h.rank r rank hr).1
  · rw [List.pairwise_iff_getElem]
    intro i j hi hj hlt v hvi hvj
    have hfirst := ((h.rank i _ (List.getElem?_eq_getElem hi)).2 v).1 hvi
    have hsecond := ((h.rank j _ (List.getElem?_eq_getElem hj)).2 v).1 hvj
    rw [← Table.get?_eq_some_iff hkeys] at hfirst hsecond
    rw [hfirst] at hsecond
    exact Nat.ne_of_lt hlt (Option.some.inj hsecond)

theorem pairwise_byName {rank : List String} (h : rank ∈ byName ranks) :
    rank.Pairwise (· ≤ ·) := by
  obtain ⟨r, -, rfl⟩ := List.mem_map.1 h
  have hsorted := Text.pairwise_arranged Text.isOrder_inOrder ranks.keys
  refine (hsorted.imp fun hle => ?_).filter _
  exact of_decide_eq_true hle

/-- The order of the table does not count. -/
theorem byName_perm {others : Table Nat} (hkeys : ranks.keys.Nodup) (hperm : others.Perm ranks) :
    byName others = byName ranks := by
  have hothers : others.keys.Nodup := (hperm.map Prod.fst).nodup_iff.2 hkeys
  have hnames : Text.sortedNames others.keys = Text.sortedNames ranks.keys :=
    Text.sortedNames_eq_iff.2 fun name => (hperm.map Prod.fst).mem_iff
  have hrank : rankOf others = rankOf ranks := by
    funext v
    rw [rankOf, rankOf]
    congr 1
    ext r
    rw [Table.get?_eq_some_iff hothers, Table.get?_eq_some_iff hkeys, hperm.mem_iff]
  have hcount : others.foldl (fun n entry => max n (entry.2 + 1)) 0
      = ranks.foldl (fun n entry => max n (entry.2 + 1)) 0 :=
    hperm.foldl_eq' (fun _ _ _ _ n => by omega) 0
  rw [byName, byName, hnames, hrank, hcount]

/-! ## Sweeps -/

/-- What is returned comes from sweeps, each of which took crossings away. -/
theorem exists_improve_eq (g : Digraph) (most : Nat) (ordering : List (List String)) :
    ∃ sweeps ≤ most, improve g most ordering = (sweepBoth g)^[sweeps] ordering ∧
      ∀ k < sweeps, crossings g ((sweepBoth g)^[k + 1] ordering)
        < crossings g ((sweepBoth g)^[k] ordering) := by
  induction most generalizing ordering with
  | zero => exact ⟨0, Nat.le_refl 0, rfl, fun k hk => absurd hk (Nat.not_lt_zero k)⟩
  | succ most ih =>
    have hnone : ∃ sweeps ≤ most + 1, ordering = (sweepBoth g)^[sweeps] ordering ∧
        ∀ k < sweeps, crossings g ((sweepBoth g)^[k + 1] ordering)
          < crossings g ((sweepBoth g)^[k] ordering) :=
      ⟨0, Nat.zero_le _, rfl, fun k hk => absurd hk (Nat.not_lt_zero k)⟩
    rw [improve]
    split
    · exact hnone
    dsimp only
    split
    · next hless =>
      obtain ⟨sweeps, hle, heq, hsteps⟩ := ih (sweepBoth g ordering)
      refine ⟨sweeps + 1, Nat.succ_le_succ hle, heq, fun k hk => ?_⟩
      cases k with
      | zero => exact hless
      | succ k => exact hsteps k (Nat.lt_of_succ_lt_succ hk)
    · exact hnone

theorem isOrderingOf_sweeps (g : Digraph) (hkeys : ranks.keys.Nodup) (sweeps : Nat) :
    IsOrderingOf ranks ((sweepBoth g)^[sweeps] (byName ranks)) := by
  have hperm : ∀ ordering, Forall₂ List.Perm ordering (byName ranks) →
      Forall₂ List.Perm ((sweepBoth g)^[sweeps] ordering) (byName ranks) := by
    induction sweeps with
    | zero => exact fun _ h => h
    | succ sweeps ih => exact fun _ h => ih _ (perm_sweepBoth g h)
  exact (isOrderingOf_byName hkeys).perm (hperm _ (List.forall₂_same.2 fun _ _ => .refl _))

theorem crossings_improve_le (g : Digraph) (most : Nat) (ordering : List (List String)) :
    crossings g (improve g most ordering) ≤ crossings g ordering := by
  obtain ⟨sweeps, -, heq, hsteps⟩ := exists_improve_eq g most ordering
  rw [heq]
  clear heq
  induction sweeps with
  | zero => exact Nat.le_refl _
  | succ sweeps ih =>
    have hlast := hsteps sweeps (Nat.lt_succ_self sweeps)
    exact hlast.le.trans (ih fun k hk => hsteps k (Nat.lt_succ_of_lt hk))

/-- The ordering of a layering lists the ranks, with no more crossings than when every rank is in
name order. It comes from no more sweeps than are allowed, each of which took crossings away, and
does not depend on the order in which the table of ranks is written. -/
theorem ordering_keeps_fewest {l : Layering} (hkeys : l.ranks.keys.Nodup) :
    IsOrderingOf l.ranks l.ordering ∧
      (IsOrderingOf l.ranks (byName l.ranks) ∧
        (∀ rank ∈ byName l.ranks, rank.Pairwise (· ≤ ·)) ∧
        crossingNumber l.graph l.ordering ≤ crossingNumber l.graph (byName l.ranks)) ∧
      (∃ sweeps ≤ maxSweeps, l.ordering = (sweepBoth l.graph)^[sweeps] (byName l.ranks) ∧
        ∀ k < sweeps, crossingNumber l.graph ((sweepBoth l.graph)^[k + 1] (byName l.ranks))
          < crossingNumber l.graph ((sweepBoth l.graph)^[k] (byName l.ranks))) ∧
      ∀ ranks, ranks.Perm l.ranks → ordering ⟨l.graph, ranks⟩ = l.ordering := by
  have hcount : ∀ {ordering}, IsOrderingOf l.ranks ordering →
      crossings l.graph ordering = crossingNumber l.graph ordering := fun hordering =>
    crossings_eq_crossingNumber l.graph (hordering.nodup_flatten hkeys)
  have hnamed := isOrderingOf_byName hkeys
  have hsweeps := isOrderingOf_sweeps l.graph hkeys
  have hordering : IsOrderingOf l.ranks l.ordering := hnamed.perm (perm_ordering l)
  obtain ⟨sweeps, hle, heq, hsteps⟩ := exists_improve_eq l.graph maxSweeps (byName l.ranks)
  refine ⟨hordering, ⟨hnamed, fun _ => pairwise_byName, ?_⟩, ⟨sweeps, hle, heq, fun k hk => ?_⟩, ?_⟩
  · rw [← hcount hordering, ← hcount hnamed]
    exact crossings_improve_le l.graph maxSweeps (byName l.ranks)
  · rw [← hcount (hsweeps (k + 1)), ← hcount (hsweeps k)]
    exact hsteps k hk
  · intro ranks hperm
    rw [ordering, byName_perm hkeys hperm]
    rfl

/-- Two arcs that cross when the ranks are in name order. -/
def crossedArcs : Layering :=
  { graph := Digraph.ofLists ["a", "b", "c", "d"] [("a", "d"), ("b", "c")]
    ranks := [("c", 1), ("a", 0), ("d", 1), ("b", 0)] }

theorem ordering_keeps_fewest_crossedArcs : crossedArcs.ranks.keys.Nodup ∧
    IsOrderingOf crossedArcs.ranks crossedArcs.ordering ∧
      crossingNumber crossedArcs.graph (byName crossedArcs.ranks) = 1 ∧
        crossingNumber crossedArcs.graph crossedArcs.ordering ≤ 1 := by
  have hnamed : byName crossedArcs.ranks = [["a", "b"], ["c", "d"]] := by decide +kernel
  have hkeys : crossedArcs.ranks.keys.Nodup := by decide
  obtain ⟨hordering, ⟨-, -, hle⟩, -⟩ := ordering_keeps_fewest hkeys
  have hone : crossingNumber crossedArcs.graph (byName crossedArcs.ranks) = 1 := by
    rw [hnamed]
    decide
  exact ⟨hkeys, hordering, hone, hle.trans_eq hone⟩

end BlockDiagram.Layering
