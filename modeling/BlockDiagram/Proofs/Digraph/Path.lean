import BlockDiagram.Layering
import BlockDiagram.Proofs.Digraph.Peel
import Mathlib.Data.Set.Finite.Basic
import Mathlib.Order.WellFounded

/-!
# Ranks are longest paths

A path counts its links. In a graph without cycles no vertex is left when all sources are taken off
again and again, and the number of a vertex's batch is the length of the longest path to it.

* `isAcyclic_of_noCycle`: the test for cycles finds none where there is none.
* `mem_ranks`: ranks are numbers of batches.
* `rankOf_ranks`: the rank of a vertex is read off the ranks of its predecessors.
* `exists_path_of_inBatch`, `le_of_path`: a longest path to a vertex of a batch.
-/

namespace BlockDiagram.Digraph

/-- A path along links, with its number of links. -/
inductive Path (links : List (String × String)) : String → String → Nat → Prop where
  | stay (v : String) : Path links v v 0
  | go {u v w : String} {n : Nat} (path : Path links u v n) (hlink : (v, w) ∈ links) :
      Path links u w (n + 1)

/-- No path with a link leads back to where it began. -/
def NoCycle (links : List (String × String)) : Prop := ∀ v n, Path links v v n → n = 0

/-- The ends of all links are vertices. -/
def IsClosed (g : Digraph) : Prop :=
  ∀ u v, (u, v) ∈ g.links → u ∈ g.vertices ∧ v ∈ g.vertices

namespace Path

variable {links links' : List (String × String)} {u v w : String} {m n : Nat}

theorem mono (h : Path links u v n) (hlinks : ∀ a, a ∈ links → a ∈ links') :
    Path links' u v n := by
  induction h with
  | stay => exact .stay u
  | go _ hlink ih => exact .go ih (hlinks _ hlink)

/-- Along links that increase a measure, a path increases it by its length at least. -/
theorem add_length_le {f : String → Nat} (hf : ∀ u v, (u, v) ∈ links → f u < f v)
    (h : Path links u v n) : f u + n ≤ f v := by
  induction h with
  | stay => exact Nat.le_refl _
  | go _ hlink ih =>
    have hstep := hf _ _ hlink
    omega

end Path

theorem noCycle_of_increasing {links : List (String × String)} {f : String → Nat}
    (hf : ∀ u v, (u, v) ∈ links → f u < f v) : NoCycle links := by
  intro v n h
  have hlength := h.add_length_le hf
  omega

theorem NoCycle.congr {links links' : List (String × String)} (h : NoCycle links)
    (hlinks : ∀ a, a ∈ links' → a ∈ links) : NoCycle links' :=
  fun v n path => h v n (path.mono hlinks)

theorem exists_path_of_transGen {links : List (String × String)} {u v : String}
    (h : Relation.TransGen (fun u v => (u, v) ∈ links) u v) : ∃ n, Path links u v (n + 1) := by
  induction h with
  | single hlink => exact ⟨0, .go (.stay u) hlink⟩
  | tail _ hlink ih =>
    obtain ⟨n, path⟩ := ih
    exact ⟨n + 1, .go path hlink⟩

/-! ## Acyclic graphs -/

variable {g : Digraph}

/-- Among vertices that all have a predecessor among them there is a cycle. -/
theorem eq_nil_of_noCycle {links : List (String × String)} {among : List String}
    (hcycle : NoCycle links) (hpred : ∀ v ∈ among, ∃ u, (u, v) ∈ links ∧ u ∈ among) :
    among = [] := by
  -- Without cycles, being reached orders the finitely many vertices, but none of them is least.
  by_contra hne
  obtain ⟨first, hfirst⟩ := List.exists_mem_of_ne_nil among hne
  let reaches : {v // v ∈ among} → {v // v ∈ among} → Prop := fun u v =>
    Relation.TransGen (fun u v => (u, v) ∈ links) u.1 v.1
  have htrans : IsTrans _ reaches := ⟨fun _ _ _ => Relation.TransGen.trans⟩
  have hirrefl : Std.Irrefl reaches := ⟨fun v hv => by
    obtain ⟨n, path⟩ := exists_path_of_transGen hv
    exact Nat.succ_ne_zero n (hcycle v.1 _ path)⟩
  have hfinite : Finite {v // v ∈ among} := List.finite_toSet among
  have hwf : WellFounded reaches := Finite.wellFounded_of_trans_of_irrefl reaches
  obtain ⟨least, -, hleast⟩ := hwf.has_min Set.univ ⟨⟨first, hfirst⟩, trivial⟩
  obtain ⟨u, hlink, hu⟩ := hpred least.1 least.2
  exact hleast ⟨u, hu⟩ trivial (.single hlink)

theorem isAcyclic_of_noCycle (h : NoCycle g.links) : g.isAcyclic = true := by
  rw [isAcyclic, eq_nil_of_noCycle h fun _ => exists_link_of_left]
  rfl

/-- The batches of an acyclic graph are its vertices. -/
theorem perm_flatten_levels (h : g.isAcyclic = true) : g.levels.flatten.Perm g.vertices := by
  have hperm := perm_peel g.isSource g.vertices
  rw [List.isEmpty_iff.1 h, List.append_nil] at hperm
  exact hperm

/-! ## Ranks -/

/-- The vertices of batches with the numbers of their batches. -/
def numbered (batches : List (List String)) : Table Nat :=
  batches.zipIdx.flatMap fun level => level.1.map fun v => (v, level.2)

theorem mem_numbered {batches : List (List String)} {v : String} {r : Nat} :
    (v, r) ∈ numbered batches ↔ InBatch batches r v := by
  simp only [numbered, List.mem_flatMap, List.mem_map, Prod.mk.injEq, Prod.exists, InBatch,
    List.mk_mem_zipIdx_iff_getElem?]
  constructor
  · rintro ⟨batch, r', hbatch, v', hv, rfl, rfl⟩
    exact ⟨batch, hbatch, hv⟩
  · rintro ⟨batch, hbatch, hv⟩
    exact ⟨batch, r, hbatch, v, hv, rfl, rfl⟩

theorem keys_numbered (batches : List (List String)) :
    (numbered batches).keys = batches.flatten := by
  have hkeys : ∀ k : Nat, Table.keys ((batches.zipIdx k).flatMap fun level =>
      level.1.map fun v => (v, level.2)) = batches.flatten := by
    induction batches with
    | nil => exact fun _ => rfl
    | cons batch batches ih =>
      intro k
      have hrest := ih (k + 1)
      simp only [Table.keys, List.zipIdx_cons, List.flatMap_cons, List.map_append,
        List.map_map, List.flatten_cons] at hrest ⊢
      rw [hrest]
      simp [Function.comp_def]
  exact hkeys 0

theorem mem_ranks {v : String} {r : Nat} : (v, r) ∈ g.ranks ↔ InBatch g.levels r v :=
  mem_numbered

theorem keys_ranks : g.ranks.keys = g.levels.flatten := keys_numbered g.levels

theorem rankOf_eq_of_inBatch (hnodup : g.vertices.Nodup) (hacyclic : g.isAcyclic = true)
    {v : String} {r : Nat} (h : InBatch g.levels r v) : Layering.rankOf g.ranks v = r := by
  have hkeys : g.ranks.keys.Nodup := by
    rw [keys_ranks]
    exact (perm_flatten_levels hacyclic).nodup_iff.2 hnodup
  rw [Layering.rankOf, (Table.get?_eq_some_iff hkeys).2 (mem_ranks.2 h), Option.getD_some]

/-- The rank of a vertex is one more than the largest rank of a predecessor, and zero without any.
So the ranks are what a walk in any topological order finds. -/
theorem rankOf_ranks (hclosed : g.IsClosed) (hnodup : g.vertices.Nodup)
    (hacyclic : g.isAcyclic = true) {v : String} (hv : v ∈ g.vertices) :
    Layering.rankOf g.ranks v
      = ((g.predecessors v).map fun u => Layering.rankOf g.ranks u + 1).foldl max 0 := by
  obtain ⟨r, hr⟩ := exists_inBatch_iff.2 ((perm_flatten_levels hacyclic).mem_iff.2 hv)
  have hrank : ∀ {u s}, InBatch g.levels s u → Layering.rankOf g.ranks u = s :=
    rankOf_eq_of_inBatch hnodup hacyclic
  rw [hrank hr]
  refine Nat.le_antisymm ?_ ((List.max?_le_iff List.max?_cons').2 fun n hn => ?_)
  · cases r with
    | zero => exact Nat.zero_le _
    | succ r =>
      obtain ⟨u, hlink, hu⟩ := exists_link_of_inBatch_succ hr
      have hmem : r + 1 ∈ 0 :: (g.predecessors v).map fun u => Layering.rankOf g.ranks u + 1 := by
        rw [← hrank hu]
        exact List.mem_cons_of_mem 0 (List.mem_map_of_mem (mem_predecessors.2 hlink))
      exact (List.max?_le_iff List.max?_cons').1 (Nat.le_refl _) _ hmem
  · rcases List.mem_cons.1 hn with rfl | hn
    · exact Nat.zero_le r
    · obtain ⟨u, hu, rfl⟩ := List.mem_map.1 hn
      obtain ⟨s, hs, hbatch⟩ := exists_inBatch_lt hr
        (hclosed u v (mem_predecessors.1 hu)).1 (mem_predecessors.1 hu)
      rw [hrank hbatch]
      exact hs

/-- Every vertex of a batch ends a path as long as the batch's number. -/
theorem exists_path_of_inBatch {v : String} {r : Nat} (h : InBatch g.levels r v) :
    ∃ u, Path g.links u v r := by
  induction r generalizing v with
  | zero => exact ⟨v, .stay v⟩
  | succ r ih =>
    obtain ⟨u, hlink, hu⟩ := exists_link_of_inBatch_succ h
    obtain ⟨w, path⟩ := ih hu
    exact ⟨w, .go path hlink⟩

/-- No path to a vertex of a batch is longer than the batch's number. -/
theorem le_of_path (hclosed : g.IsClosed) {u v : String} {n : Nat} (path : Path g.links u v n) :
    ∀ {r : Nat}, InBatch g.levels r v → n ≤ r := by
  induction path with
  | stay => exact fun _ => Nat.zero_le _
  | go _ hlink ih =>
    intro r hr
    obtain ⟨s, hs, hv⟩ := exists_inBatch_lt hr (hclosed _ _ hlink).1 hlink
    have hle := ih hv
    omega

end BlockDiagram.Digraph
