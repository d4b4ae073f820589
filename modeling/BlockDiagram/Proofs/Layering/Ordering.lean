import BlockDiagram.Layering.Crossing
import BlockDiagram.Proofs.Digraph.Path
import Mathlib.Data.List.Forall2

/-!
# An ordering holds every rank

Sweeps permute the vertices of each rank and move none to another one. Placeholders are told from
vertices by their names, so without them the ordering of an acyclic graph lists its batches, rank by
rank.

* `perm_ordering`: the ranks of an ordering are those in name order, permuted.
* `nodup_flatten_byName`, `mem_flatten_byName`: every vertex with a rank is on one rank.
* `get?_ranks_proper`: placeholders leave the ranks of vertices alone.
* `perm_named_ordering`: without placeholders an ordering lists the batches.
-/

namespace BlockDiagram.Layering

/-! ## Sweeps -/

theorem perm_sortRank (neighbours : String → List String) (fixed rank : List String) :
    (sortRank neighbours fixed rank).Perm rank := by
  rw [sortRank]
  refine ((sorted_perm _).map Prod.snd).trans ?_
  rw [List.map_map, Function.comp_def]
  exact .of_eq (List.zipIdx_map_fst 0 rank)

theorem perm_sweepFrom (neighbours : String → List String) (fixed : List String)
    {ranks target : List (List String)} (h : List.Forall₂ List.Perm ranks target) :
    List.Forall₂ List.Perm (sweepFrom neighbours fixed ranks) target := by
  induction h generalizing fixed with
  | nil => exact .nil
  | cons hrank _ ih => exact .cons ((perm_sortRank neighbours fixed _).trans hrank) (ih _)

theorem perm_sweep (neighbours : String → List String) {ranks target : List (List String)}
    (h : List.Forall₂ List.Perm ranks target) :
    List.Forall₂ List.Perm (sweep neighbours ranks) target := by
  cases h with
  | nil => exact .nil
  | cons hrank hrest => exact .cons hrank (perm_sweepFrom neighbours _ hrest)

theorem perm_sweepBoth (g : Digraph) {ranks target : List (List String)}
    (h : List.Forall₂ List.Perm ranks target) :
    List.Forall₂ List.Perm (sweepBoth g ranks) target := by
  have hdown := List.forall₂_reverse_iff.2 (perm_sweep g.predecessors h)
  have hup := List.forall₂_reverse_iff.2 (perm_sweep g.successors hdown)
  rwa [List.reverse_reverse] at hup

theorem perm_improve (g : Digraph) (sweeps : Nat) {ranks target : List (List String)}
    (h : List.Forall₂ List.Perm ranks target) :
    List.Forall₂ List.Perm (improve g sweeps ranks) target := by
  induction sweeps generalizing ranks with
  | zero => exact h
  | succ sweeps ih =>
    rw [improve]
    split
    · exact h
    · dsimp only
      split
      · exact ih (perm_sweepBoth g h)
      · exact h

theorem perm_ordering (l : Layering) : List.Forall₂ List.Perm l.ordering (byName l.ranks) :=
  perm_improve l.graph maxSweeps (List.forall₂_same.2 fun rank _ => .refl rank)

/-! ## Ranks in name order -/

theorem le_foldl_max (t : Table Nat) (start : Nat) :
    start ≤ t.foldl (fun n entry => max n (entry.2 + 1)) start ∧
      ∀ entry ∈ t, entry.2 + 1 ≤ t.foldl (fun n entry => max n (entry.2 + 1)) start := by
  induction t generalizing start with
  | nil => simp
  | cons entry rest ih =>
    obtain ⟨hstart, hrest⟩ := ih (max start (entry.2 + 1))
    rw [List.foldl_cons]
    refine ⟨by omega, fun other hother => ?_⟩
    rcases List.mem_cons.1 hother with rfl | hother
    · omega
    · exact hrest other hother

/-- How many ranks there are when they are listed in name order. -/
theorem exists_byName_eq (ranks : Table Nat) : ∃ count,
    byName ranks = (List.range count).map (fun r =>
      (Text.sortedNames ranks.keys).filter fun v => rankOf ranks v == r) ∧
    ∀ v r, (v, r) ∈ ranks → r < count :=
  ⟨_, rfl, fun v r h => (le_foldl_max ranks 0).2 (v, r) h⟩

/-- No vertex is on two ranks. -/
theorem nodup_flatten_byName (ranks : Table Nat) : (byName ranks).flatten.Nodup := by
  obtain ⟨count, hbyName, -⟩ := exists_byName_eq ranks
  rw [hbyName, List.nodup_flatten]
  refine ⟨fun rank hrank => ?_, List.pairwise_map.2 (List.nodup_range.imp fun hne v hv hv' => ?_)⟩
  · obtain ⟨r, -, rfl⟩ := List.mem_map.1 hrank
    exact (Text.nodup_sortedNames _).filter _
  · exact hne ((beq_iff_eq.1 (List.mem_filter.1 hv).2).symm.trans
      (beq_iff_eq.1 (List.mem_filter.1 hv').2))

theorem mem_flatten_byName {ranks : Table Nat} {v : String} :
    v ∈ (byName ranks).flatten ↔ v ∈ ranks.keys := by
  obtain ⟨count, hbyName, hcount⟩ := exists_byName_eq ranks
  rw [hbyName, List.mem_flatten]
  constructor
  · rintro ⟨rank, hrank, hv⟩
    obtain ⟨r, -, rfl⟩ := List.mem_map.1 hrank
    exact Text.mem_sortedNames.1 (List.mem_of_mem_filter hv)
  · intro hv
    obtain ⟨r, hr⟩ := Option.isSome_iff_exists.1 (Table.mem_keys_iff.1 hv)
    refine ⟨_, List.mem_map_of_mem (List.mem_range.2 (hcount v r (Table.mem_of_get? hr))), ?_⟩
    refine List.mem_filter.2 ⟨Text.mem_sortedNames.2 hv, ?_⟩
    rw [rankOf, hr]
    exact beq_self_eq_true r

/-- Every vertex that has a rank is on one rank of an ordering, in one place. -/
theorem perm_flatten_ordering (l : Layering) :
    l.ordering.flatten.Perm (byName l.ranks).flatten :=
  Digraph.perm_flatten (perm_ordering l)

/-! ## Placeholders -/

theorem isPlaceholder_of_mem_chains {ranks : Table Nat} {number : Nat}
    {arcs : List (String × String)} {chain : Chain} {entry : String × Nat}
    (hchain : chain ∈ chains ranks number arcs) (hentry : entry ∈ chain.inner) :
    isPlaceholder entry.1 = true := by
  induction arcs generalizing number with
  | nil => cases hchain
  | cons arc rest ih =>
    obtain ⟨source, target⟩ := arc
    rw [chains] at hchain
    dsimp only at hchain
    split at hchain
    · rcases List.mem_cons.1 hchain with rfl | hchain
      · cases hentry
      · exact ih hchain
    · rcases List.mem_cons.1 hchain with rfl | hchain
      · obtain ⟨i, -, rfl⟩ := List.mem_map.1 hentry
        exact isPlaceholder_placeholder number (i + 1)
      · exact ih hchain

theorem get?_foldl_put (entries : List (String × Nat)) (ranks : Table Nat) {v : String}
    (hv : ∀ entry ∈ entries, entry.1 ≠ v) :
    (entries.foldl (fun t entry => t.put entry.1 entry.2) ranks).get? v = ranks.get? v := by
  induction entries generalizing ranks with
  | nil => rfl
  | cons entry rest ih =>
    rw [List.foldl_cons, ih _ fun other hother => hv other (List.mem_cons_of_mem _ hother)]
    exact Table.get?_put_of_ne ranks entry.2 (hv entry List.mem_cons_self).symm

/-- Placeholders leave the ranks of vertices alone. -/
theorem get?_ranks_proper (g : Digraph) (ranks : Table Nat) {v : String}
    (hv : isPlaceholder v = false) : (proper g ranks).ranks.get? v = ranks.get? v := by
  refine get?_foldl_put _ _ fun entry hentry heq => ?_
  obtain ⟨chain, hchain, hentry⟩ := List.mem_flatMap.1 hentry
  have hplaceholder := isPlaceholder_of_mem_chains hchain hentry
  rw [heq, hv] at hplaceholder
  cases hplaceholder

/-! ## Ranks without placeholders -/

/-- The ranks of an ordering without placeholders, as far as something is left. -/
def named (ordering : List (List String)) : List (List String) :=
  (ordering.map fun rank => rank.filter fun name => !isPlaceholder name).filter fun rank =>
    !rank.isEmpty

theorem forall₂_perm_named {ordering ranks batches : List (List String)}
    (h : List.Forall₂ List.Perm ordering ranks)
    (hbatches : List.Forall₂ (fun rank batch =>
      (rank.filter fun name => !isPlaceholder name).Perm batch) ranks batches) :
    List.Forall₂ List.Perm (named ordering) (batches.filter fun batch => !batch.isEmpty) := by
  induction h generalizing batches with
  | nil =>
    cases hbatches
    exact .nil
  | cons hrank _ ih =>
    cases hbatches with
    | cons hbatch hrest =>
      have hnames := (hrank.filter fun name => !isPlaceholder name).trans hbatch
      have htail := ih hrest
      simp only [named, List.map_cons, List.filter_cons] at htail ⊢
      rw [hnames.isEmpty_eq]
      split
      · exact .cons hnames htail
      · exact htail

/-- Batches that hold something, looked up one after another. -/
theorem filter_map_getD_range {batches : List (List String)} (hne : ∀ batch ∈ batches, batch ≠ [])
    {count : Nat} (hcount : batches.length ≤ count) :
    ((List.range count).map fun r => batches[r]?.getD []).filter (fun batch => !batch.isEmpty)
      = batches := by
  induction batches generalizing count with
  | nil => simp
  | cons batch rest ih =>
    obtain ⟨count, rfl⟩ : ∃ c, count = c + 1 := ⟨count - 1, by simp at hcount; omega⟩
    have hbatch : (!batch.isEmpty) = true := by
      simpa using hne batch List.mem_cons_self
    have hrest := ih (fun other hother => hne other (List.mem_cons_of_mem _ hother))
      (Nat.le_of_succ_le_succ hcount)
    rw [List.range_succ_eq_map]
    simpa [hbatch, Function.comp_def] using hrest

section

variable {g : Digraph} (hacyclic : g.isAcyclic = true) (hnodup : g.vertices.Nodup)
  (hnames : ∀ v ∈ g.vertices, isPlaceholder v = false)

include hacyclic hnodup

theorem nodup_keys_ranks : g.ranks.keys.Nodup := by
  rw [Digraph.keys_ranks]
  exact (Digraph.perm_flatten_levels hacyclic).nodup_iff.2 hnodup

theorem nodup_level (r : Nat) : (g.levels[r]?.getD []).Nodup := by
  cases h : g.levels[r]? with
  | none => exact List.nodup_nil
  | some batch =>
    have hflatten := (Digraph.perm_flatten_levels hacyclic).nodup_iff.2 hnodup
    exact (List.nodup_flatten.1 hflatten).1 batch (List.mem_of_getElem? h)

include hnames

/-- Placeholders apart, the proper layering keeps all ranks and adds none. -/
theorem mem_ranks_iff_proper {v : String} {r : Nat} : (v, r) ∈ g.ranks ↔
    isPlaceholder v = false ∧ (proper g g.ranks).ranks.get? v = some r := by
  rw [← Table.get?_eq_some_iff (nodup_keys_ranks hacyclic hnodup)]
  constructor
  · intro h
    have hv : v ∈ g.vertices := by
      refine (Digraph.perm_flatten_levels hacyclic).mem_iff.1 ?_
      rw [← Digraph.keys_ranks]
      exact List.mem_map_of_mem (Table.mem_of_get? h)
    exact ⟨hnames v hv, (get?_ranks_proper g g.ranks (hnames v hv)).trans h⟩
  · rintro ⟨hv, h⟩
    exact (get?_ranks_proper g g.ranks hv).symm.trans h

theorem length_levels_le {count : Nat}
    (hcount : ∀ v r, (v, r) ∈ (proper g g.ranks).ranks → r < count) : g.levels.length ≤ count := by
  by_contra hlt
  have hbatch : g.levels[count]? = some g.levels[count] :=
    List.getElem?_eq_getElem (Nat.lt_of_not_le hlt)
  obtain ⟨v, hv⟩ := List.exists_mem_of_ne_nil _
    (Digraph.ne_nil_of_mem_peel (List.mem_of_getElem? hbatch))
  have hrank : (v, count) ∈ g.ranks := Digraph.mem_ranks.2 ⟨_, hbatch, hv⟩
  have hproper := ((mem_ranks_iff_proper hacyclic hnodup hnames).1 hrank).2
  exact Nat.lt_irrefl count (hcount v count (Table.mem_of_get? hproper))

/-- Placeholders apart, the vertices of a rank are a batch. -/
theorem perm_level (r : Nat) :
    (((Text.sortedNames (proper g g.ranks).ranks.keys).filter fun v =>
      rankOf (proper g g.ranks).ranks v == r).filter fun name => !isPlaceholder name).Perm
        (g.levels[r]?.getD []) := by
  refine (List.perm_ext_iff_of_nodup ?_ (nodup_level hacyclic hnodup r)).2 fun v => ?_
  · exact ((Text.nodup_sortedNames _).filter _).filter _
  · rw [← Digraph.inBatch_iff_mem_getD, ← Digraph.mem_ranks,
      mem_ranks_iff_proper hacyclic hnodup hnames, List.mem_filter,
      List.mem_filter, Text.mem_sortedNames, Table.mem_keys_iff, Table.has, rankOf]
    cases (proper g g.ranks).ranks.get? v <;> simp [and_comm]

/-- Without placeholders the ordering of an acyclic graph lists its batches. -/
theorem perm_named_ordering :
    List.Forall₂ List.Perm (named (proper g g.ranks).ordering) g.levels := by
  obtain ⟨count, hbyName, hcount⟩ := exists_byName_eq (proper g g.ranks).ranks
  have hordering := perm_ordering (proper g g.ranks)
  rw [hbyName] at hordering
  have hbatches : ∀ batch ∈ g.levels, batch ≠ [] := fun _ => Digraph.ne_nil_of_mem_peel
  rw [← filter_map_getD_range hbatches (length_levels_le hacyclic hnodup hnames hcount)]
  refine forall₂_perm_named hordering ?_
  rw [List.forall₂_map_left_iff, List.forall₂_map_right_iff, List.forall₂_same]
  exact fun r _ => perm_level hacyclic hnodup hnames r

end

end BlockDiagram.Layering
