import BlockDiagram.Digraph.Feedback
import BlockDiagram.Proofs.Digraph.Path

/-!
# Turned links leave no cycle

All vertices are lined up, so links that do not point back in the line lead strictly on; turning
those that do leaves no cycle. Vertices that were joined stay joined.

* `perm_greedyOrder`: no vertex is forgotten or taken twice.
* `isAcyclic_withoutCycles`: no cycle is left.
* `joined_withoutCycles`: no link is lost.
-/

namespace BlockDiagram.Digraph

variable {g : Digraph}

/-- The vertices are lined up, each once. -/
theorem perm_greedyOrder (g : Digraph) (rest : List String) :
    (g.greedyOrder rest).Perm rest := by
  -- A vertex is a sink, a source, the richest of the others, or left to the next round.
  induction rest using greedyOrder.induct g with
  | case1 rest sinks sources ih =>
    simp only [sources, sinks] at ih
    have hsinks := perm_peel g.isSink rest
    have hsources := perm_peel g.isSource (peel g.isSink rest).2
    have hreversed := List.reverse_perm (peel g.isSink rest).1.flatten
    cases hleft : (peel g.isSource (peel g.isSink rest).2).2 with
    | nil =>
      rw [hleft, List.append_nil] at hsources
      rw [greedyOrder_of_nil hleft]
      exact ((hsources.append hreversed).trans List.perm_append_comm).trans hsinks
    | cons first others =>
      have hbest := List.perm_cons_erase (g.richest_mem (first :: others) first others)
      rw [hleft] at hsources
      rw [greedyOrder_of_cons hleft]
      have hinner := ((ih first others hleft).cons
        (g.richest (first :: others) first others)).trans hbest.symm
      have hkept := ((hinner.append_left _).trans hsources).append hreversed
      exact (hkept.trans List.perm_append_comm).trans hsinks

theorem mem_greedyOrder {rest : List String} {v : String} (hv : v ∈ rest) :
    v ∈ g.greedyOrder rest :=
  (g.perm_greedyOrder rest).mem_iff.2 hv

/-! ## Turning links -/

theorem mem_links_turned {order : List String} {a b : String} :
    (a, b) ∈ (g.turned order).links ↔
      ((a, b) ∈ g.links ∧ order.idxOf a ≤ order.idxOf b) ∨
        ((b, a) ∈ g.links ∧ order.idxOf a < order.idxOf b) := by
  simp only [turned, mem_links_ofLists, List.mem_map, Prod.exists]
  constructor
  · rintro ⟨u, v, hlink, h⟩
    split at h
    · next hback =>
      cases h
      exact .inr ⟨hlink, hback⟩
    · next hon =>
      cases h
      exact .inl ⟨hlink, Nat.not_lt.1 hon⟩
  · rintro (⟨hlink, hon⟩ | ⟨hlink, hback⟩)
    · exact ⟨a, b, hlink, by rw [if_neg (Nat.not_lt.2 hon)]⟩
    · exact ⟨b, a, hlink, by rw [if_pos hback]⟩

theorem noCycle_turned {order : List String} (hloop : ∀ v, (v, v) ∉ g.links)
    (horder : ∀ u v, (u, v) ∈ g.links → u ∈ order) : NoCycle (g.turned order).links := by
  refine noCycle_of_increasing (f := order.idxOf) fun a b h => ?_
  rcases mem_links_turned.1 h with ⟨hlink, hon⟩ | ⟨-, hback⟩
  · refine Nat.lt_of_le_of_ne hon fun heq => ?_
    rw [List.idxOf_inj (horder a b hlink)] at heq
    subst heq
    exact hloop a hlink
  · exact hback

theorem isAcyclic_withoutCycles (hclosed : g.IsClosed) (hloop : ∀ v, (v, v) ∉ g.links) :
    g.withoutCycles.isAcyclic = true := by
  rw [withoutCycles]
  split
  · next hacyclic => exact hacyclic
  · refine isAcyclic_of_noCycle (noCycle_turned hloop fun u v hlink => ?_)
    exact mem_greedyOrder (hclosed u v hlink).1

theorem withoutCycles_of_noCycle (h : NoCycle g.links) : g.withoutCycles = g := by
  rw [withoutCycles, if_pos (isAcyclic_of_noCycle h)]

/-- Links are kept or turned. -/
theorem joined_withoutCycles {u v : String} (h : (u, v) ∈ g.links) :
    (u, v) ∈ g.withoutCycles.links ∨ (v, u) ∈ g.withoutCycles.links := by
  rw [withoutCycles]
  split
  · exact .inl h
  · rw [mem_links_turned, mem_links_turned]
    rcases Nat.lt_or_ge ((g.greedyOrder g.vertices).idxOf v)
      ((g.greedyOrder g.vertices).idxOf u) with hback | hon
    · exact .inr (.inr ⟨h, hback⟩)
    · exact .inl (.inl ⟨h, hon⟩)

theorem mem_vertices_withoutCycles {v : String} :
    v ∈ g.withoutCycles.vertices ↔ v ∈ g.vertices := by
  rw [withoutCycles]
  split
  · exact Iff.rfl
  · exact mem_vertices_ofLists

theorem isClosed_withoutCycles (hclosed : g.IsClosed) : g.withoutCycles.IsClosed := by
  intro u v h
  rw [mem_vertices_withoutCycles, mem_vertices_withoutCycles]
  rw [withoutCycles] at h
  split at h
  · exact hclosed u v h
  · rcases mem_links_turned.1 h with ⟨hlink, -⟩ | ⟨hlink, -⟩
    · exact hclosed u v hlink
    · exact (hclosed v u hlink).symm

theorem nodup_vertices_withoutCycles (h : g.vertices.Nodup) :
    g.withoutCycles.vertices.Nodup := by
  rw [withoutCycles]
  split
  · exact h
  · exact Text.nodup_sortedNames g.vertices

end BlockDiagram.Digraph
