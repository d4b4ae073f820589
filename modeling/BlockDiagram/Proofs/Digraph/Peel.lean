import BlockDiagram.Digraph
import Mathlib.Data.List.Forall2
import Mathlib.Data.List.Perm.Basic

/-!
# Batches of sources

Peeling takes off batch after batch and loses nothing. If sources are taken off, every link into a
batch comes from an earlier one, every vertex of a later batch has a link from the batch before, and
whatever is left has a predecessor that is left as well.

* `perm_peel`: the batches and what is left are the vertices.
* `exists_inBatch_lt`, `exists_link_of_inBatch_succ`: links and batches of sources.
* `exists_link_of_left`: links and what is left.
-/

namespace BlockDiagram.Digraph

variable {pick : List String → String → Bool} {rest : List String}

/-! ## Peeling -/

theorem peel_of_picked_eq_nil (h : picked pick rest = []) : peel pick rest = ([], rest) := by
  rw [peel, dif_pos h]

theorem peel_of_picked_ne_nil (h : picked pick rest ≠ []) :
    peel pick rest = (picked pick rest :: (peel pick (unpicked pick rest)).1,
      (peel pick (unpicked pick rest)).2) := by
  rw [peel, dif_neg h]

theorem perm_peel (pick : List String → String → Bool) (rest : List String) :
    ((peel pick rest).1.flatten ++ (peel pick rest).2).Perm rest := by
  induction rest using peel.induct pick with
  | case1 rest hnil =>
    rw [peel_of_picked_eq_nil hnil]
    exact .refl rest
  | case2 rest hpicked _ _ _ ih =>
    rw [peel_of_picked_ne_nil hpicked, List.flatten_cons, List.append_assoc]
    exact (ih.append_left _).trans (List.filter_append_perm (pick rest) rest)

theorem ne_nil_of_mem_peel {batch : List String} (h : batch ∈ (peel pick rest).1) :
    batch ≠ [] := by
  induction rest using peel.induct pick with
  | case1 rest hnil =>
    rw [peel_of_picked_eq_nil hnil] at h
    cases h
  | case2 rest hpicked _ _ _ ih =>
    rw [peel_of_picked_ne_nil hpicked] at h
    rcases List.mem_cons.1 h with rfl | h
    · exact hpicked
    · exact ih h

/-- A vertex is in the batch with a number. -/
def InBatch (batches : List (List String)) (r : Nat) (v : String) : Prop :=
  ∃ batch, batches[r]? = some batch ∧ v ∈ batch

@[simp] theorem inBatch_cons_zero {batch : List String} {batches : List (List String)}
    {v : String} : InBatch (batch :: batches) 0 v ↔ v ∈ batch := by
  simp [InBatch]

@[simp] theorem inBatch_cons_succ {batch : List String} {batches : List (List String)} {r : Nat}
    {v : String} : InBatch (batch :: batches) (r + 1) v ↔ InBatch batches r v := by
  simp [InBatch]

theorem not_inBatch_nil {r : Nat} {v : String} : ¬ InBatch [] r v := by
  simp [InBatch]

theorem inBatch_iff_mem_getD {batches : List (List String)} {r : Nat} {v : String} :
    InBatch batches r v ↔ v ∈ batches[r]?.getD [] := by
  cases h : batches[r]? <;> simp [InBatch, h]

/-- If no batch is empty, every number up to a vertex's one has a vertex. -/
theorem exists_inBatch_of_le {batches : List (List String)} (hne : ∀ batch ∈ batches, batch ≠ [])
    {r s : Nat} {v : String} (h : InBatch batches r v) (hs : s ≤ r) :
    ∃ w, InBatch batches s w := by
  obtain ⟨batch, hbatch, -⟩ := h
  have hlt : s < batches.length :=
    Nat.lt_of_le_of_lt hs (List.getElem?_eq_some_iff.1 hbatch).1
  obtain ⟨w, hw⟩ := List.exists_mem_of_ne_nil _ (hne _ (List.getElem_mem hlt))
  exact ⟨w, batches[s], List.getElem?_eq_getElem hlt, hw⟩

theorem exists_inBatch_iff {batches : List (List String)} {v : String} :
    (∃ r, InBatch batches r v) ↔ v ∈ batches.flatten := by
  rw [List.mem_flatten]
  constructor
  · rintro ⟨r, batch, hbatch, hv⟩
    exact ⟨batch, List.mem_of_getElem? hbatch, hv⟩
  · rintro ⟨batch, hbatch, hv⟩
    obtain ⟨r, hr⟩ := List.getElem?_of_mem hbatch
    exact ⟨r, batch, hr, hv⟩

/-- Batches that are permuted one by one hold the same vertices. -/
theorem inBatch_congr {batches others : List (List String)}
    (h : List.Forall₂ List.Perm batches others) {r : Nat} {v : String} :
    InBatch batches r v ↔ InBatch others r v := by
  induction h generalizing r with
  | nil => exact Iff.rfl
  | cons hbatch _ ih =>
    cases r with
    | zero => rw [inBatch_cons_zero, inBatch_cons_zero, hbatch.mem_iff]
    | succ r => rw [inBatch_cons_succ, inBatch_cons_succ, ih]

theorem perm_flatten {batches others : List (List String)}
    (h : List.Forall₂ List.Perm batches others) : batches.flatten.Perm others.flatten := by
  induction h with
  | nil => exact .refl _
  | cons hbatch _ ih =>
    rw [List.flatten_cons, List.flatten_cons]
    exact hbatch.append ih

theorem mem_of_inBatch_peel {r : Nat} {v : String} (h : InBatch (peel pick rest).1 r v) :
    v ∈ rest := by
  refine (perm_peel pick rest).mem_iff.1 (List.mem_append_left _ ?_)
  exact exists_inBatch_iff.1 ⟨r, h⟩

/-! ## Sources -/

variable {g : Digraph}

theorem isSource_iff {among : List String} {v : String} :
    g.isSource among v = true ↔ ∀ u, (u, v) ∈ g.links → u ∉ among := by
  simp [isSource, inDegree, List.countP_eq_zero]

theorem mem_picked_isSource {v : String} :
    v ∈ picked g.isSource rest ↔ v ∈ rest ∧ ∀ u, (u, v) ∈ g.links → u ∉ rest := by
  rw [picked, List.mem_filter, isSource_iff]

theorem mem_unpicked_isSource {v : String} :
    v ∈ unpicked g.isSource rest ↔ v ∈ rest ∧ ∃ u, (u, v) ∈ g.links ∧ u ∈ rest := by
  rw [unpicked, List.mem_filter, Bool.not_eq_true', ← Bool.not_eq_true, isSource_iff]
  simp

theorem mem_picked_or_mem_unpicked {v : String} (h : v ∈ rest) :
    v ∈ picked pick rest ∨ v ∈ unpicked pick rest := by
  cases hpick : pick rest v
  · exact .inr (List.mem_filter.2 ⟨h, by simp [hpick]⟩)
  · exact .inl (List.mem_filter.2 ⟨h, hpick⟩)

/-- A link into a batch comes from an earlier batch. -/
theorem exists_inBatch_lt {u v : String} {r : Nat} (hv : InBatch (peel g.isSource rest).1 r v)
    (hu : u ∈ rest) (hlink : (u, v) ∈ g.links) :
    ∃ s < r, InBatch (peel g.isSource rest).1 s u := by
  induction rest using peel.induct g.isSource generalizing r with
  | case1 rest hnil =>
    rw [peel_of_picked_eq_nil hnil] at hv
    exact absurd hv not_inBatch_nil
  | case2 rest hpicked _ _ _ ih =>
    rw [peel_of_picked_ne_nil hpicked] at hv ⊢
    cases r with
    | zero =>
      rw [inBatch_cons_zero, mem_picked_isSource] at hv
      exact absurd hu (hv.2 u hlink)
    | succ r =>
      rw [inBatch_cons_succ] at hv
      rcases mem_picked_or_mem_unpicked hu with hu | hu
      · exact ⟨0, Nat.succ_pos r, inBatch_cons_zero.2 hu⟩
      · obtain ⟨s, hs, hu⟩ := ih hv hu
        exact ⟨s + 1, Nat.succ_lt_succ hs, inBatch_cons_succ.2 hu⟩

/-- A vertex of a later batch has a link from the batch before. -/
theorem exists_link_of_inBatch_succ {v : String} {r : Nat}
    (hv : InBatch (peel g.isSource rest).1 (r + 1) v) :
    ∃ u, (u, v) ∈ g.links ∧ InBatch (peel g.isSource rest).1 r u := by
  induction rest using peel.induct g.isSource generalizing r with
  | case1 rest hnil =>
    rw [peel_of_picked_eq_nil hnil] at hv
    exact absurd hv not_inBatch_nil
  | case2 rest hpicked _ _ _ ih =>
    rw [peel_of_picked_ne_nil hpicked] at hv ⊢
    rw [inBatch_cons_succ] at hv
    cases r with
    | succ r =>
      obtain ⟨u, hlink, hu⟩ := ih hv
      exact ⟨u, hlink, inBatch_cons_succ.2 hu⟩
    | zero =>
      -- The vertex is no source at first and one later, so a predecessor went in between.
      obtain ⟨u, hlink, hu⟩ := (mem_unpicked_isSource.1 (mem_of_inBatch_peel hv)).2
      refine ⟨u, hlink, inBatch_cons_zero.2 ?_⟩
      refine (mem_picked_or_mem_unpicked hu).resolve_right fun hu => ?_
      obtain ⟨s, hs, -⟩ := exists_inBatch_lt hv hu hlink
      omega

/-- What is left has a predecessor that is left. -/
theorem exists_link_of_left {v : String} (hv : v ∈ (peel g.isSource rest).2) :
    ∃ u, (u, v) ∈ g.links ∧ u ∈ (peel g.isSource rest).2 := by
  induction rest using peel.induct g.isSource with
  | case1 rest hnil =>
    rw [peel_of_picked_eq_nil hnil] at hv ⊢
    rcases mem_picked_or_mem_unpicked hv with hpicked | hunpicked
    · rw [hnil] at hpicked
      cases hpicked
    · exact (mem_unpicked_isSource.1 hunpicked).2
  | case2 rest hpicked _ _ _ ih =>
    rw [peel_of_picked_ne_nil hpicked] at hv ⊢
    exact ih hv

end BlockDiagram.Digraph
