import BlockDiagram.Digraph.Feedback
import BlockDiagram.Layering

/-!
# The order in which links are added

Two graphs are alike if they have the same vertices and the same links, added in any order. All that
is asked of the links is how many there are to or from some vertices, or which there are; so alike
graphs are peeled, lined up, turned and ranked alike.

* `Alike.isSink_eq`, `Alike.isSource_eq`, `Alike.surplus_eq`: what is counted.
* `Alike.greedyOrder_eq`, `Alike.withoutCycles`: taking cycles out.
* `Alike.ranks_eq`, `Alike.proper_eq`: the layering.
-/

namespace BlockDiagram.Digraph

/-- Graphs with the same vertices and links, the links in any order. -/
structure Alike (g h : Digraph) : Prop where
  vertices : g.vertices = h.vertices
  links : g.links.Perm h.links

theorem alike_ofLists {vertices vertices' : List String} {links links' : List (String × String)}
    (hvertices : ∀ v, v ∈ vertices ↔ v ∈ vertices') (hlinks : ∀ a, a ∈ links ↔ a ∈ links') :
    Alike (ofLists vertices links) (ofLists vertices' links') where
  vertices := Text.sortedNames_eq_iff.2 hvertices
  links := by
    refine (List.perm_ext_iff_of_nodup (Text.eraseDups_nodup links)
      (Text.eraseDups_nodup links')).2 fun arc => ?_
    rw [List.mem_eraseDups, List.mem_eraseDups, hlinks]

namespace Alike

variable {g h : Digraph}

/-! ## Counting links -/

theorem outDegree_eq (hgh : Alike g h) : g.outDegree = h.outDegree := by
  funext among v
  exact (hgh.links.filterMap _).countP_eq _

theorem inDegree_eq (hgh : Alike g h) : g.inDegree = h.inDegree := by
  funext among v
  exact (hgh.links.filterMap _).countP_eq _

theorem isSink_eq (hgh : Alike g h) : g.isSink = h.isSink := by
  funext among v
  rw [isSink, isSink, hgh.outDegree_eq]

theorem isSource_eq (hgh : Alike g h) : g.isSource = h.isSource := by
  funext among v
  rw [isSource, isSource, hgh.inDegree_eq]

theorem surplus_eq (hgh : Alike g h) : g.surplus = h.surplus := by
  funext among v
  rw [surplus, surplus, hgh.outDegree_eq, hgh.inDegree_eq]

theorem richest_eq (hgh : Alike g h) : g.richest = h.richest := by
  funext among first others
  rw [richest, richest, hgh.surplus_eq]

/-! ## Taking cycles out -/

theorem isAcyclic_eq (hgh : Alike g h) : g.isAcyclic = h.isAcyclic := by
  rw [isAcyclic, isAcyclic, hgh.isSource_eq, hgh.vertices]

theorem greedyOrder_eq (hgh : Alike g h) (rest : List String) :
    g.greedyOrder rest = h.greedyOrder rest := by
  induction rest using greedyOrder.induct g with
  | case1 rest sinks sources ih =>
    simp only [sources, sinks] at ih
    cases hleft : (peel g.isSource (peel g.isSink rest).2).2 with
    | nil =>
      have hleft' := hleft
      rw [hgh.isSink_eq, hgh.isSource_eq] at hleft'
      rw [greedyOrder_of_nil hleft, greedyOrder_of_nil hleft', hgh.isSink_eq, hgh.isSource_eq]
    | cons first others =>
      have hleft' := hleft
      rw [hgh.isSink_eq, hgh.isSource_eq] at hleft'
      rw [greedyOrder_of_cons hleft, greedyOrder_of_cons hleft', ih first others hleft,
        hgh.isSink_eq, hgh.isSource_eq, hgh.richest_eq]

/-- The links of alike graphs are turned alike. -/
theorem turned (hgh : Alike g h) (order : List String) :
    Alike (g.turned order) (h.turned order) := by
  refine alike_ofLists (fun v => by rw [hgh.vertices]) fun arc => ?_
  exact (hgh.links.map _).mem_iff

theorem withoutCycles (hgh : Alike g h) : Alike g.withoutCycles h.withoutCycles := by
  rw [Digraph.withoutCycles, Digraph.withoutCycles, hgh.isAcyclic_eq, hgh.vertices,
    hgh.greedyOrder_eq]
  split
  · exact hgh
  · exact hgh.turned _

/-! ## Layering -/

theorem arcs_eq (hgh : Alike g h) : g.arcs = h.arcs :=
  Text.sortedPairs_eq_iff.2 fun _ => hgh.links.mem_iff

theorem ranks_eq (hgh : Alike g h) : g.ranks = h.ranks := by
  rw [ranks, ranks, levels, levels, hgh.isSource_eq, hgh.vertices]

theorem proper_eq (hgh : Alike g h) (ranks : Table Nat) :
    Layering.proper g ranks = Layering.proper h ranks := by
  rw [Layering.proper, Layering.proper, hgh.arcs_eq, hgh.vertices]

end Alike

end BlockDiagram.Digraph
