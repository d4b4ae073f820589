import BlockDiagram.Proofs.Digraph.Backward
import BlockDiagram.Proofs.Layering.Ordering
import BlockDiagram.Text.Digits
import BlockDiagram.Text.Split
import Mathlib.Data.List.Pairwise

/-!
# Arcs as chains of placeholders

In the proper layering every arc stands as a chain that has a placeholder of its own on each rank
between its ends. The name of a placeholder gives away its chain and its place there, so no two
chains meet but in vertices of the graph, and a way past placeholders follows one chain from end to
end.

* `placeholder_inj`: placeholders of different chains or places have different names.
* `nodup_names_chains`: no name is given twice.
* `predecessors_of_mem_arcs`, `successors_of_mem_arcs`: the one neighbour of a placeholder on either
  side.
* `mem_links_iff_passage`: past placeholders lead just the links of the graph.
* `get?_of_stop`: along a chain each vertex is one rank further.
* `proper_isProperFor`: the proper layering of a ranked graph stands for it.
-/

namespace BlockDiagram

/-! ## Ways past vertices -/

/-- A way along links that passes only vertices of one sort and arrives at one that is not. -/
inductive Digraph.Passage (links : List (String × String)) (isPassed : String → Bool) :
    String → String → Prop
  | arrive {u v : String} (hlink : (u, v) ∈ links) (hv : isPassed v = false) :
      Passage links isPassed u v
  | pass {u w v : String} (hlink : (u, w) ∈ links) (hw : isPassed w = true)
      (rest : Passage links isPassed w v) : Passage links isPassed u v

/-! ## Ranked graphs -/

/-- The table has a rank for every vertex of a graph, and every link leads to a higher rank. -/
structure Digraph.IsRankedBy (g : Digraph) (ranks : Table Nat) : Prop where
  vertices : ∀ v ∈ g.vertices, ranks.has v = true
  rising : ∀ u v, (u, v) ∈ g.links → Layering.rankOf ranks u < Layering.rankOf ranks v

/-- The longest paths of an acyclic graph rank it. -/
theorem Digraph.isRankedBy_ranks {g : Digraph} (hsimple : g.IsSimple)
    (hacyclic : g.isAcyclic = true) : g.IsRankedBy g.ranks := by
  have hbatch : ∀ v ∈ g.vertices, ∃ r, InBatch g.levels r v := fun v hv =>
    exists_inBatch_iff.2 ((perm_flatten_levels hacyclic).mem_iff.2 hv)
  have hget : ∀ {r v}, InBatch g.levels r v → g.ranks.get? v = some r := by
    intro r v h
    rw [Table.get?_eq_some_iff (Layering.nodup_keys_ranks hacyclic hsimple.vertices_nodup)]
    exact mem_ranks.2 h
  refine ⟨fun v hv => ?_, fun u v hlink => ?_⟩
  · obtain ⟨r, hr⟩ := hbatch v hv
    exact Option.isSome_iff_exists.2 ⟨r, hget hr⟩
  · obtain ⟨hu, hv⟩ := hsimple.closed u v hlink
    obtain ⟨s, hs⟩ := hbatch v hv
    obtain ⟨r, hlt, hr⟩ := exists_inBatch_lt hs hu hlink
    rw [Layering.rankOf, Layering.rankOf, hget hr, hget hs]
    exact hlt

/-! ## Neighbours -/

theorem Digraph.nodup_predecessors {g : Digraph} (h : g.links.Nodup) (v : String) :
    (g.predecessors v).Nodup := by
  refine h.filterMap fun arc arc' u hu hu' => ?_
  obtain ⟨hhead, htail⟩ := Option.ite_none_right_eq_some.1 hu
  obtain ⟨hhead', htail'⟩ := Option.ite_none_right_eq_some.1 hu'
  exact Prod.ext (Option.some.inj (htail.trans htail'.symm)) (hhead.trans hhead'.symm)

theorem Digraph.nodup_successors {g : Digraph} (h : g.links.Nodup) (v : String) :
    (g.successors v).Nodup := by
  refine h.filterMap fun arc arc' u hu hu' => ?_
  obtain ⟨htail, hhead⟩ := Option.ite_none_right_eq_some.1 hu
  obtain ⟨htail', hhead'⟩ := Option.ite_none_right_eq_some.1 hu'
  exact Prod.ext (htail.trans htail'.symm) (Option.some.inj (hhead.trans hhead'.symm))

namespace Layering

/-! ## Names of placeholders -/

/-- The name of a placeholder gives away its chain and its place: digits end at the mark between
them. -/
theorem placeholder_inj {chain place chain' place' : Nat} :
    placeholder chain place = placeholder chain' place' ↔ chain = chain' ∧ place = place' := by
  constructor
  · intro h
    have hdigits : ∀ n : Nat, '_' ∉ (Nat.repr n).toList := fun n hmem =>
      absurd (Text.isDigit_of_mem_repr hmem) (by decide)
    have hchars := congrArg String.toList h
    simp only [placeholder, String.append_assoc, String.toList_append,
      List.append_cancel_left_eq] at hchars
    obtain ⟨hchain, hplace⟩ := Text.append_mark_inj (hdigits chain) (hdigits chain') hchars
    exact ⟨Text.repr_inj.1 (String.toList_inj.1 hchain),
      Text.repr_inj.1 (String.toList_inj.1 hplace)⟩
  · rintro ⟨rfl, rfl⟩
    rfl

/-! ## Chains -/

/-- The names of the placeholders of a chain. -/
def Chain.names (c : Chain) : List String := c.inner.map Prod.fst

/-- The vertices of a chain in order, its ends included. -/
def Chain.stops (c : Chain) : List String := c.source :: (c.names ++ [c.target])

/-- The placeholders of an arc with a number, and their ranks. -/
def innerOf (ranks : Table Nat) (number : Nat) (source target : String) : List (String × Nat) :=
  (List.range (rankOf ranks target - rankOf ranks source - 1)).map fun i =>
    (placeholder number (i + 1), rankOf ranks source + (i + 1))

theorem chains_cons (ranks : Table Nat) (number : Nat) (source target : String)
    (rest : List (String × String)) :
    chains ranks number ((source, target) :: rest)
      = ⟨source, target, innerOf ranks number source target⟩
        :: chains ranks (if rankOf ranks target - rankOf ranks source ≤ 1 then number
          else number + 1) rest := by
  rw [chains]
  dsimp only
  split
  · next hshort =>
    rw [innerOf, Nat.sub_eq_zero_of_le hshort]
    rfl
  · rfl

theorem map_ends_chains (ranks : Table Nat) (number : Nat) (arcs : List (String × String)) :
    (chains ranks number arcs).map (fun c => (c.source, c.target)) = arcs := by
  induction arcs generalizing number with
  | nil => rfl
  | cons arc rest ih => rw [chains_cons, List.map_cons, ih]

theorem exists_inner_of_mem_chains {ranks : Table Nat} {number : Nat}
    {arcs : List (String × String)} {c : Chain} (h : c ∈ chains ranks number arcs) :
    ∃ n ≥ number, c.inner = innerOf ranks n c.source c.target := by
  induction arcs generalizing number with
  | nil => cases h
  | cons arc rest ih =>
    rw [chains_cons] at h
    rcases List.mem_cons.1 h with rfl | h
    · exact ⟨number, Nat.le_refl _, rfl⟩
    · obtain ⟨n, hn, hinner⟩ := ih h
      refine ⟨n, ?_, hinner⟩
      split at hn <;> omega

/-- The placeholders of an arc stand one rank after another, from the rank after its source. -/
theorem eq_of_getElem?_innerOf {ranks : Table Nat} {number i : Nat} {source target : String}
    {entry : String × Nat} (h : (innerOf ranks number source target)[i]? = some entry) :
    entry.2 = rankOf ranks source + (i + 1) := by
  rw [innerOf, List.getElem?_map] at h
  obtain ⟨j, hj, rfl⟩ := Option.map_eq_some_iff.1 h
  obtain ⟨hi, rfl⟩ := List.getElem?_eq_some_iff.1 hj
  rw [List.getElem_range]

theorem mem_names_innerOf {ranks : Table Nat} {number : Nat} {source target name : String} :
    name ∈ (innerOf ranks number source target).map Prod.fst ↔
      ∃ i < rankOf ranks target - rankOf ranks source - 1, placeholder number (i + 1) = name := by
  simp [innerOf]

/-- No name is given to two placeholders, of one chain or of two. -/
theorem nodup_names_chains (ranks : Table Nat) (number : Nat) (arcs : List (String × String)) :
    ((chains ranks number arcs).flatMap Chain.names).Nodup := by
  induction arcs generalizing number with
  | nil => exact List.nodup_nil
  | cons arc rest ih =>
    rw [chains_cons, List.flatMap_cons, List.nodup_append]
    refine ⟨?_, ih _, ?_⟩
    · rw [Chain.names, innerOf, List.map_map]
      refine List.nodup_range.map fun i j h => ?_
      exact Nat.succ_injective (placeholder_inj.1 h).2
    · -- a chain with placeholders takes its number, so the later ones have higher numbers
      rintro name hname name' hname' rfl
      obtain ⟨i, hi, rfl⟩ := mem_names_innerOf.1 hname
      obtain ⟨c, hc, hname'⟩ := List.mem_flatMap.1 hname'
      obtain ⟨n, hn, hinner⟩ := exists_inner_of_mem_chains hc
      rw [Chain.names, hinner, mem_names_innerOf] at hname'
      obtain ⟨j, -, heq⟩ := hname'
      have hsame := (placeholder_inj.1 heq).1
      rw [if_neg (by omega)] at hn
      omega

theorem length_names_chains (ranks : Table Nat) (number : Nat) (arcs : List (String × String)) :
    ((chains ranks number arcs).flatMap Chain.names).length
      = (arcs.map fun arc => rankOf ranks arc.2 - rankOf ranks arc.1 - 1).sum := by
  induction arcs generalizing number with
  | nil => rfl
  | cons arc rest ih =>
    rw [chains_cons, List.flatMap_cons, List.length_append, ih, List.map_cons, List.sum_cons,
      Chain.names, innerOf, List.length_map, List.length_map, List.length_range]

/-! ## Arcs along a path -/

theorem mem_pathArcs_iff {stops : List String} {u v : String} :
    (u, v) ∈ pathArcs stops ↔ ∃ i, stops[i]? = some u ∧ stops[i + 1]? = some v := by
  induction stops with
  | nil => simp [pathArcs]
  | cons first rest ih =>
    cases rest with
    | nil => simp [pathArcs]
    | cons second rest =>
      rw [pathArcs, List.mem_cons, ih, Prod.mk.injEq]
      constructor
      · rintro (⟨rfl, rfl⟩ | ⟨i, hu, hv⟩)
        · exact ⟨0, rfl, rfl⟩
        · exact ⟨i + 1, hu, hv⟩
      · rintro ⟨i, hu, hv⟩
        cases i with
        | zero => exact .inl ⟨(Option.some.inj hu).symm, (Option.some.inj hv).symm⟩
        | succ i => exact .inr ⟨i, hu, hv⟩

theorem pathArcs_left_unique {stops : List String} (hnodup : stops.Nodup) {u u' v : String}
    (h : (u, v) ∈ pathArcs stops) (h' : (u', v) ∈ pathArcs stops) : u = u' := by
  obtain ⟨i, hu, hv⟩ := mem_pathArcs_iff.1 h
  obtain ⟨j, hu', hv'⟩ := mem_pathArcs_iff.1 h'
  have hsame : i + 1 = j + 1 :=
    (List.getElem?_inj (List.getElem?_eq_some_iff.1 hv).1 hnodup).1 (hv.trans hv'.symm)
  rw [Nat.succ_injective hsame, hu'] at hu
  exact (Option.some.inj hu).symm

theorem pathArcs_right_unique {stops : List String} (hnodup : stops.Nodup) {u v v' : String}
    (h : (u, v) ∈ pathArcs stops) (h' : (u, v') ∈ pathArcs stops) : v = v' := by
  obtain ⟨i, hu, hv⟩ := mem_pathArcs_iff.1 h
  obtain ⟨j, hu', hv'⟩ := mem_pathArcs_iff.1 h'
  have hsame : i = j :=
    (List.getElem?_inj (List.getElem?_eq_some_iff.1 hu).1 hnodup).1 (hu.trans hu'.symm)
  rw [hsame, hv'] at hv
  exact (Option.some.inj hv).symm

/-- An arc of a chain leads from its source or a placeholder to a placeholder or its target. -/
theorem Chain.mem_of_mem_arcs {c : Chain} {u v : String} (h : (u, v) ∈ c.arcs) :
    (u = c.source ∨ u ∈ c.names) ∧ (v ∈ c.names ∨ v = c.target) := by
  obtain ⟨i, hu, hv⟩ := mem_pathArcs_iff.1 h
  have hlength : i + 1 < c.names.length + 2 := by
    have hlt := (List.getElem?_eq_some_iff.1 hv).1
    simpa [Chain.names] using hlt
  constructor
  · cases i with
    | zero => exact .inl (Option.some.inj hu).symm
    | succ i =>
      refine .inr (List.mem_of_getElem? (i := i) ?_)
      rwa [List.getElem?_cons_succ, List.getElem?_append_left] at hu
      exact Nat.lt_of_succ_lt_succ (Nat.lt_of_succ_lt_succ hlength)
  · have hmem := List.mem_of_getElem? hv
    rw [List.getElem?_cons_succ] at hv
    exact (List.mem_append.1 (List.mem_of_getElem? hv)).imp_right List.mem_singleton.1

/-- A way along links past vertices that are all passed. -/
theorem passage_of_pathArcs {links : List (String × String)} {isPassed : String → Bool}
    {u v : String} {inner : List String} (hinner : ∀ w ∈ inner, isPassed w = true)
    (hv : isPassed v = false) (h : ∀ arc ∈ pathArcs (u :: (inner ++ [v])), arc ∈ links) :
    Digraph.Passage links isPassed u v := by
  induction inner generalizing u with
  | nil => exact .arrive (h (u, v) List.mem_cons_self) hv
  | cons w rest ih =>
    rw [List.forall_mem_cons] at hinner
    refine .pass (h (u, w) List.mem_cons_self) hinner.1 (ih hinner.2 fun arc harc => ?_)
    exact h arc (List.mem_cons_of_mem _ harc)

/-! ## Chains in the proper layering -/

theorem eq_singleton {xs : List String} {a : String} (hnodup : xs.Nodup)
    (h : ∀ x, x ∈ xs ↔ x = a) : xs = [a] := by
  refine List.perm_singleton.1 ((List.perm_ext_iff_of_nodup hnodup (List.nodup_singleton a)).2 ?_)
  exact fun x => (h x).trans List.mem_singleton.symm

theorem get?_foldl_put_of_mem {entries : List (String × Nat)}
    (hnodup : (entries.map Prod.fst).Nodup) (ranks : Table Nat) {v : String} {r : Nat}
    (h : (v, r) ∈ entries) :
    (entries.foldl (fun t entry => t.put entry.1 entry.2) ranks).get? v = some r := by
  induction entries generalizing ranks with
  | nil => cases h
  | cons entry rest ih =>
    rw [List.map_cons, List.nodup_cons] at hnodup
    rw [List.foldl_cons]
    rcases List.mem_cons.1 h with rfl | h
    · have hlast : ∀ entry ∈ rest, entry.1 ≠ v := fun entry hentry heq =>
        hnodup.1 (List.mem_map.2 ⟨entry, hentry, heq⟩)
      rw [get?_foldl_put rest _ hlast, Table.get?_put_self]
    · exact ih hnodup.2 _ h

theorem get?_eq_rankOf {ranks : Table Nat} {v : String} (h : ranks.has v = true) :
    ranks.get? v = some (rankOf ranks v) := by
  obtain ⟨r, hr⟩ := Option.isSome_iff_exists.1 h
  rw [rankOf, hr]
  rfl

theorem map_fst_inner (parts : List Chain) :
    (parts.flatMap Chain.inner).map Prod.fst = parts.flatMap Chain.names := by
  rw [List.map_flatMap]
  rfl

theorem isPlaceholder_of_mem_names {ranks : Table Nat} {number : Nat}
    {arcs : List (String × String)} {c : Chain} (hc : c ∈ chains ranks number arcs) {name : String}
    (h : name ∈ c.names) : isPlaceholder name = true := by
  obtain ⟨entry, hentry, rfl⟩ := List.mem_map.1 h
  exact isPlaceholder_of_mem_chains hc hentry

theorem not_mem_names {ranks : Table Nat} {number : Nat} {arcs : List (String × String)}
    {c : Chain} (hc : c ∈ chains ranks number arcs) {v : String} (hv : isPlaceholder v = false) :
    v ∉ c.names := by
  intro hmem
  rw [isPlaceholder_of_mem_names hc hmem] at hv
  cases hv

theorem ne_of_isPlaceholder {name v : String} (hname : isPlaceholder name = true)
    (hv : isPlaceholder v = false) : name ≠ v := by
  rintro rfl
  rw [hname] at hv
  cases hv

/-- Chains that share a placeholder are one chain. -/
theorem chain_unique {ranks : Table Nat} {number : Nat} {arcs : List (String × String)}
    {c c' : Chain} (hc : c ∈ chains ranks number arcs) (hc' : c' ∈ chains ranks number arcs)
    {name : String} (h : name ∈ c.names) (h' : name ∈ c'.names) : c = c' := by
  by_contra hne
  have hdisjoint := (List.nodup_flatMap.1 (nodup_names_chains ranks number arcs)).2
  have hsymm : Std.Symm (Function.onFun List.Disjoint Chain.names) :=
    ⟨fun _ _ => List.Disjoint.symm⟩
  exact hdisjoint.forall hc hc' hne h h'

section

variable {g : Digraph} {ranks : Table Nat} {c : Chain} {u v name : String}

theorem mem_links_of_mem_chains (hc : c ∈ chains ranks 0 g.arcs) :
    (c.source, c.target) ∈ g.links := by
  rw [← Digraph.mem_arcs, ← map_ends_chains ranks 0 g.arcs]
  exact List.mem_map_of_mem hc

theorem mem_links_proper : (u, v) ∈ (proper g ranks).graph.links ↔
    ∃ c ∈ chains ranks 0 g.arcs, (u, v) ∈ c.arcs := by
  rw [proper, Digraph.mem_links_ofLists, List.mem_flatMap]

theorem mem_vertices_proper : v ∈ (proper g ranks).graph.vertices ↔
    v ∈ g.vertices ∨ v ∈ (chains ranks 0 g.arcs).flatMap Chain.names := by
  rw [proper, Digraph.mem_vertices_ofLists, List.mem_append, map_fst_inner]

variable (hsimple : g.IsSimple) (hnames : ∀ v ∈ g.vertices, isPlaceholder v = false)

include hsimple hnames

/-- The ends of a chain are vertices of the graph, not placeholders. -/
theorem isPlaceholder_ends (hc : c ∈ chains ranks 0 g.arcs) :
    isPlaceholder c.source = false ∧ isPlaceholder c.target = false := by
  obtain ⟨hsource, htarget⟩ := hsimple.closed _ _ (mem_links_of_mem_chains hc)
  exact ⟨hnames _ hsource, hnames _ htarget⟩

theorem nodup_stops (hc : c ∈ chains ranks 0 g.arcs) : c.stops.Nodup := by
  have hends := isPlaceholder_ends hsimple hnames hc
  have hloop : c.source ≠ c.target := fun heq =>
    hsimple.loopless c.target (heq ▸ mem_links_of_mem_chains hc)
  rw [Chain.stops, List.nodup_cons, List.nodup_append, List.mem_append, List.mem_singleton, not_or]
  refine ⟨⟨not_mem_names hc hends.1, hloop⟩, ?_, List.nodup_singleton _, ?_⟩
  · exact (List.nodup_flatMap.1 (nodup_names_chains ranks 0 g.arcs)).1 c hc
  · rintro name hname _ hmem rfl
    rw [List.mem_singleton.1 hmem] at hname
    exact not_mem_names hc hends.2 hname

/-- The links to and from a placeholder belong to its chain. -/
theorem mem_arcs_of_mem_names (hc : c ∈ chains ranks 0 g.arcs) (hname : name ∈ c.names)
    (hlink : (u, v) ∈ (proper g ranks).graph.links) (hend : u = name ∨ v = name) :
    (u, v) ∈ c.arcs := by
  obtain ⟨c', hc', harc⟩ := mem_links_proper.1 hlink
  have hends := isPlaceholder_ends hsimple hnames hc'
  have hplaceholder := isPlaceholder_of_mem_names hc hname
  obtain ⟨hu, hv⟩ := c'.mem_of_mem_arcs harc
  have hmem : name ∈ c'.names := by
    rcases hend with rfl | rfl
    · exact hu.resolve_left (ne_of_isPlaceholder hplaceholder hends.1)
    · exact hv.resolve_right (ne_of_isPlaceholder hplaceholder hends.2)
  rwa [chain_unique hc hc' hname hmem]

theorem predecessors_of_mem_arcs (hc : c ∈ chains ranks 0 g.arcs) (hname : name ∈ c.names)
    (harc : (u, name) ∈ c.arcs) : (proper g ranks).graph.predecessors name = [u] := by
  refine eq_singleton (Digraph.nodup_predecessors (Text.eraseDups_nodup _) name) fun x => ?_
  rw [Digraph.mem_predecessors]
  constructor
  · intro hlink
    exact pathArcs_left_unique (nodup_stops hsimple hnames hc)
      (mem_arcs_of_mem_names hsimple hnames hc hname hlink (.inr rfl)) harc
  · rintro rfl
    exact mem_links_proper.2 ⟨c, hc, harc⟩

theorem successors_of_mem_arcs (hc : c ∈ chains ranks 0 g.arcs) (hname : name ∈ c.names)
    (harc : (name, v) ∈ c.arcs) : (proper g ranks).graph.successors name = [v] := by
  refine eq_singleton (Digraph.nodup_successors (Text.eraseDups_nodup _) name) fun x => ?_
  rw [Digraph.mem_successors]
  constructor
  · intro hlink
    exact pathArcs_right_unique (nodup_stops hsimple hnames hc)
      (mem_arcs_of_mem_names hsimple hnames hc hname hlink (.inl rfl)) harc
  · rintro rfl
    exact mem_links_proper.2 ⟨c, hc, harc⟩

/-- A placeholder has one neighbour on each side. -/
theorem exists_neighbours (hc : c ∈ chains ranks 0 g.arcs) (hname : name ∈ c.names) :
    ∃ u v, (proper g ranks).graph.predecessors name = [u] ∧
      (proper g ranks).graph.successors name = [v] := by
  obtain ⟨i, hi, hat⟩ := List.getElem_of_mem hname
  have hlength : c.stops.length = c.names.length + 2 := by
    rw [Chain.stops, List.length_cons, List.length_append, List.length_singleton]
  have hstop : c.stops[i + 1]? = some name := by
    rw [Chain.stops, List.getElem?_cons_succ, List.getElem?_append_left hi,
      List.getElem?_eq_getElem hi, hat]
  obtain ⟨u, hu⟩ : ∃ u, c.stops[i]? = some u := ⟨_, List.getElem?_eq_getElem (by omega)⟩
  obtain ⟨v, hv⟩ : ∃ v, c.stops[i + 1 + 1]? = some v := ⟨_, List.getElem?_eq_getElem (by omega)⟩
  refine ⟨u, v, predecessors_of_mem_arcs hsimple hnames hc hname ?_,
    successors_of_mem_arcs hsimple hnames hc hname ?_⟩
  · exact mem_pathArcs_iff.2 ⟨i, hu, hstop⟩
  · exact mem_pathArcs_iff.2 ⟨i + 1, hstop, hv⟩

/-! ### Without placeholders -/

/-- A way past placeholders that starts at one ends where the chain ends. -/
theorem eq_target_of_passage (hc : c ∈ chains ranks 0 g.arcs) (hname : name ∈ c.names)
    (h : Digraph.Passage (proper g ranks).graph.links isPlaceholder name v) : v = c.target := by
  induction h with
  | @arrive name v hlink hv =>
    have harc := mem_arcs_of_mem_names hsimple hnames hc hname hlink (.inl rfl)
    exact (c.mem_of_mem_arcs harc).2.resolve_left (not_mem_names hc hv)
  | @pass name w v hlink hw _ ih =>
    have harc := mem_arcs_of_mem_names hsimple hnames hc hname hlink (.inl rfl)
    have hends := isPlaceholder_ends hsimple hnames hc
    exact ih ((c.mem_of_mem_arcs harc).2.resolve_right (ne_of_isPlaceholder hw hends.2))

/-- Past placeholders lead just the links of the graph. -/
theorem mem_links_iff_passage : (u, v) ∈ g.links ↔
    u ∈ g.vertices ∧ Digraph.Passage (proper g ranks).graph.links isPlaceholder u v := by
  constructor
  · intro hlink
    obtain ⟨hu, hv⟩ := hsimple.closed u v hlink
    rw [← Digraph.mem_arcs, ← map_ends_chains ranks 0 g.arcs] at hlink
    obtain ⟨c, hc, heq⟩ := List.mem_map.1 hlink
    obtain ⟨rfl, rfl⟩ := Prod.mk.inj heq
    refine ⟨hu, passage_of_pathArcs (fun _ => isPlaceholder_of_mem_names hc) (hnames _ hv) ?_⟩
    exact fun arc harc => mem_links_proper.2 ⟨c, hc, harc⟩
  · rintro ⟨hu, hpassage⟩
    have hfrom : ∀ w, (u, w) ∈ (proper g ranks).graph.links →
        ∃ c ∈ chains ranks 0 g.arcs, u = c.source ∧ (w ∈ c.names ∨ w = c.target) := by
      intro w hlink
      obtain ⟨c, hc, harc⟩ := mem_links_proper.1 hlink
      obtain ⟨hsource, hw⟩ := c.mem_of_mem_arcs harc
      exact ⟨c, hc, hsource.resolve_right (not_mem_names hc (hnames u hu)), hw⟩
    cases hpassage with
    | arrive hlink hv =>
      obtain ⟨c, hc, rfl, hw⟩ := hfrom v hlink
      rw [hw.resolve_left (not_mem_names hc hv)]
      exact mem_links_of_mem_chains hc
    | @pass _ w _ hlink hw rest =>
      obtain ⟨c, hc, rfl, hmem⟩ := hfrom w hlink
      have hends := isPlaceholder_ends hsimple hnames hc
      have hname : w ∈ c.names := hmem.resolve_right (ne_of_isPlaceholder hw hends.2)
      rw [eq_target_of_passage hsimple hnames hc hname rest]
      exact mem_links_of_mem_chains hc

/-! ### Ranks -/

/-- Along a chain each vertex is one rank further. -/
theorem get?_of_stop (hranked : g.IsRankedBy ranks) (hc : c ∈ chains ranks 0 g.arcs) {i : Nat}
    (h : c.stops[i]? = some v) :
    (proper g ranks).ranks.get? v = some (rankOf ranks c.source + i) := by
  have hlink := mem_links_of_mem_chains hc
  have hends := isPlaceholder_ends hsimple hnames hc
  obtain ⟨hsource, htarget⟩ := hsimple.closed _ _ hlink
  have hrising := hranked.rising _ _ hlink
  obtain ⟨n, -, hinner⟩ := exists_inner_of_mem_chains hc
  have hlength : c.names.length = rankOf ranks c.target - rankOf ranks c.source - 1 := by
    rw [Chain.names, hinner, innerOf, List.length_map, List.length_map, List.length_range]
  cases i with
  | zero =>
    rw [← Option.some.inj h, get?_ranks_proper g ranks hends.1,
      get?_eq_rankOf (hranked.vertices _ hsource), Nat.add_zero]
  | succ i =>
    rw [Chain.stops, List.getElem?_cons_succ] at h
    rcases Nat.lt_or_ge i c.names.length with hi | hi
    · rw [List.getElem?_append_left hi, Chain.names, List.getElem?_map] at h
      obtain ⟨entry, hentry, rfl⟩ := Option.map_eq_some_iff.1 h
      have hrank : entry.2 = rankOf ranks c.source + (i + 1) :=
        eq_of_getElem?_innerOf (hinner ▸ hentry)
      refine get?_foldl_put_of_mem ?_ ranks ?_
      · rw [map_fst_inner]
        exact nodup_names_chains ranks 0 g.arcs
      · rw [← hrank]
        exact List.mem_flatMap.2 ⟨c, hc, List.mem_of_getElem? hentry⟩
    · rw [List.getElem?_append_right hi, List.getElem?_singleton] at h
      obtain ⟨hlast, htarget'⟩ := Option.ite_none_right_eq_some.1 h
      rw [← Option.some.inj htarget', get?_ranks_proper g ranks hends.2,
        get?_eq_rankOf (hranked.vertices _ htarget)]
      congr 1
      omega

/-- Every link leads to the next rank. -/
theorem get?_of_mem_links (hranked : g.IsRankedBy ranks)
    (h : (u, v) ∈ (proper g ranks).graph.links) :
    ∃ r, (proper g ranks).ranks.get? u = some r ∧
      (proper g ranks).ranks.get? v = some (r + 1) := by
  obtain ⟨c, hc, harc⟩ := mem_links_proper.1 h
  obtain ⟨i, hu, hv⟩ := mem_pathArcs_iff.1 harc
  exact ⟨_, get?_of_stop hsimple hnames hranked hc hu,
    get?_of_stop hsimple hnames hranked hc hv⟩

/-! ### Vertices -/

omit hsimple in
/-- Apart from the vertices of the graph there are just the placeholders. -/
theorem mem_names_iff : name ∈ (chains ranks 0 g.arcs).flatMap Chain.names ↔
    name ∈ (proper g ranks).graph.vertices ∧ name ∉ g.vertices := by
  rw [mem_vertices_proper]
  constructor
  · intro hmem
    refine ⟨.inr hmem, fun hvertex => ?_⟩
    obtain ⟨c, hc, hname⟩ := List.mem_flatMap.1 hmem
    exact not_mem_names hc (hnames name hvertex) hname
  · rintro ⟨hmem, hnot⟩
    exact hmem.resolve_left hnot

theorem isSimple_proper : (proper g ranks).graph.IsSimple := by
  refine ⟨Text.nodup_sortedNames _, Text.eraseDups_nodup _, fun u v hlink => ?_, fun v hlink => ?_⟩
  · obtain ⟨c, hc, harc⟩ := mem_links_proper.1 hlink
    obtain ⟨hu, hv⟩ := c.mem_of_mem_arcs harc
    obtain ⟨hsource, htarget⟩ := hsimple.closed _ _ (mem_links_of_mem_chains hc)
    have hmem : ∀ name ∈ c.names, name ∈ (proper g ranks).graph.vertices := fun name hname =>
      mem_vertices_proper.2 (.inr (List.mem_flatMap.2 ⟨c, hc, hname⟩))
    constructor
    · rcases hu with rfl | hu
      · exact mem_vertices_proper.2 (.inl hsource)
      · exact hmem u hu
    · rcases hv with hv | rfl
      · exact hmem v hv
      · exact mem_vertices_proper.2 (.inl htarget)
  · obtain ⟨c, hc, harc⟩ := mem_links_proper.1 hlink
    obtain ⟨i, hu, hv⟩ := mem_pathArcs_iff.1 harc
    have hsame := (List.getElem?_inj (List.getElem?_eq_some_iff.1 hu).1
      (nodup_stops hsimple hnames hc)).1 (hu.trans hv.symm)
    omega

end

/-! ## The proper layering -/

/-- The vertices of a layering that are not vertices of a graph. -/
def added (l : Layering) (g : Digraph) : List String :=
  l.graph.vertices.filter fun v => !g.vertices.contains v

theorem mem_added {l : Layering} {g : Digraph} {v : String} :
    v ∈ l.added g ↔ v ∈ l.graph.vertices ∧ v ∉ g.vertices := by
  simp [added]

/-- A layering is that of a ranked graph with a chain for every arc: its links are those of the
chains and lead from each rank to the next, the vertices of the graph keep their ranks, and the
added vertices are the placeholders of the chains, each in one place of one chain. Without them, the
graph is what is left. -/
structure IsProperFor (l : Layering) (g : Digraph) (ranks : Table Nat) (parts : List Chain) :
    Prop where
  simple : l.graph.IsSimple
  steps : ∀ u v, (u, v) ∈ l.graph.links →
    ∃ r, l.ranks.get? u = some r ∧ l.ranks.get? v = some (r + 1)
  kept : ∀ v ∈ g.vertices, l.ranks.get? v = ranks.get? v
  ends : parts.map (fun c => (c.source, c.target)) = g.arcs
  arcs : ∀ u v, (u, v) ∈ l.graph.links ↔ ∃ c ∈ parts, (u, v) ∈ c.arcs
  disjoint : parts.Pairwise fun c c' => c.names.Disjoint c'.names
  chained : (l.added g).Perm (parts.flatMap Chain.names)
  single : ∀ v ∈ l.added g, ∃ u w, l.graph.predecessors v = [u] ∧ l.graph.successors v = [w]
  count : (l.added g).length
    = (g.links.map fun link => rankOf ranks link.2 - rankOf ranks link.1 - 1).sum
  contracted_vertices : ∀ v, v ∈ g.vertices ↔ v ∈ l.graph.vertices ∧ isPlaceholder v = false
  contracted_links : ∀ u v, (u, v) ∈ g.links ↔
    u ∈ g.vertices ∧ Digraph.Passage l.graph.links isPlaceholder u v

theorem perm_added {g : Digraph} {ranks : Table Nat}
    (hnames : ∀ v ∈ g.vertices, isPlaceholder v = false) :
    ((proper g ranks).added g).Perm ((chains ranks 0 g.arcs).flatMap Chain.names) := by
  refine (List.perm_ext_iff_of_nodup ?_ (nodup_names_chains ranks 0 g.arcs)).2 fun name => ?_
  · exact (Text.nodup_sortedNames _).filter _
  · rw [mem_names_iff hnames, mem_added]

theorem isProperFor_proper {g : Digraph} {ranks : Table Nat} (hsimple : g.IsSimple)
    (hnames : ∀ v ∈ g.vertices, isPlaceholder v = false) (hranked : g.IsRankedBy ranks) :
    (proper g ranks).IsProperFor g ranks (chains ranks 0 g.arcs) where
  simple := isSimple_proper hsimple hnames
  steps _ _ h := get?_of_mem_links hsimple hnames hranked h
  kept v hv := get?_ranks_proper g ranks (hnames v hv)
  ends := map_ends_chains ranks 0 g.arcs
  arcs _ _ := mem_links_proper
  disjoint := (List.nodup_flatMap.1 (nodup_names_chains ranks 0 g.arcs)).2
  chained := perm_added hnames
  single v hv := by
    rw [mem_added, ← mem_names_iff hnames] at hv
    obtain ⟨c, hc, hname⟩ := List.mem_flatMap.1 hv
    exact exists_neighbours hsimple hnames hc hname
  count := by
    have harcs : g.arcs.Perm g.links :=
      (List.perm_ext_iff_of_nodup (Text.nodup_arranged _) hsimple.links_nodup).2
        fun _ => Digraph.mem_arcs
    rw [(perm_added hnames).length_eq, length_names_chains]
    exact (harcs.map _).sum_nat
  contracted_vertices v := by
    rw [mem_vertices_proper]
    constructor
    · exact fun hv => ⟨.inl hv, hnames v hv⟩
    · rintro ⟨hv | hv, hplaceholder⟩
      · exact hv
      · obtain ⟨c, hc, hname⟩ := List.mem_flatMap.1 hv
        exact absurd hname (not_mem_names hc hplaceholder)
  contracted_links _ _ := mem_links_iff_passage hsimple hnames

/-- A graph whose links lead to higher ranks has no cycle, so that the longest paths rank it too;
whatever its ranks, the proper layering stands for it. -/
theorem proper_isProperFor {g : Digraph} {ranks : Table Nat} (hsimple : g.IsSimple)
    (hnames : ∀ v ∈ g.vertices, isPlaceholder v = false) (hranked : g.IsRankedBy ranks) :
    (g.isAcyclic = true ∧ g.IsRankedBy g.ranks) ∧
      (proper g ranks).IsProperFor g ranks (chains ranks 0 g.arcs) := by
  have hacyclic : g.isAcyclic = true :=
    Digraph.isAcyclic_of_noCycle (Digraph.noCycle_of_increasing hranked.rising)
  exact ⟨⟨hacyclic, Digraph.isRankedBy_ranks hsimple hacyclic⟩,
    isProperFor_proper hsimple hnames hranked⟩

/-- A path of four vertices with two shorter ways to its end. -/
def shortcuts : Digraph :=
  ⟨["a", "b", "c", "d"], [("a", "b"), ("b", "c"), ("c", "d"), ("a", "d"), ("b", "d")]⟩

/-- With a rank left out on the way, one link of the path and both shortcuts have placeholders. -/
theorem proper_isProperFor_shortcuts :
    let ranks := [("a", 0), ("b", 2), ("c", 3), ("d", 4)]
    (proper shortcuts ranks).IsProperFor shortcuts ranks (chains ranks 0 shortcuts.arcs) ∧
      ((proper shortcuts ranks).added shortcuts).length = 5 := by
  intro ranks
  have hends : ∀ link ∈ shortcuts.links, (link.1 ∈ shortcuts.vertices ∧
      link.2 ∈ shortcuts.vertices) ∧ rankOf ranks link.1 < rankOf ranks link.2 := by decide +kernel
  have hsimple : shortcuts.IsSimple := by
    refine ⟨by decide, by decide, fun u v hlink => (hends _ hlink).1, fun v hlink => ?_⟩
    exact Nat.lt_irrefl _ (hends _ hlink).2
  have hproper := proper_isProperFor hsimple (by decide +kernel)
    ⟨by decide +kernel, fun u v hlink => (hends _ hlink).2⟩
  exact ⟨hproper.2, hproper.2.count.trans (by decide +kernel)⟩

end Layering

end BlockDiagram
