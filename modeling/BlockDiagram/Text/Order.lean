import BlockDiagram.Sorting

/-!
# Names in order

Names are ordered by code points, and pairs of names by their first and then their second part.
`sortedNames` and `sortedPairs` list each entry once, so they depend on nothing but what a list
holds.

* `mem_sortedNames`, `mem_sortedPairs`: nothing is lost and nothing added.
* `sortedNames_eq_iff`, `sortedPairs_eq_iff`: lists with the same entries are sorted alike.
-/

namespace BlockDiagram.Text

variable {α : Type}

/-- What a test needs so that it sorts every list in one way. -/
structure IsOrder (le : α → α → Bool) : Prop where
  trans : ∀ a b c, le a b = true → le b c = true → le a c = true
  total : ∀ a b, (le a b || le b a) = true
  antisymm : ∀ a b, le a b = true → le b a = true → a = b

/-- The entries of a list in order, each once. -/
def arranged [BEq α] (le : α → α → Bool) (entries : List α) : List α :=
  sorted le entries.eraseDups

section Arranged

variable [BEq α] [LawfulBEq α] {le : α → α → Bool}

theorem mem_arranged {a : α} {entries : List α} : a ∈ arranged le entries ↔ a ∈ entries := by
  rw [arranged, mem_sorted, List.mem_eraseDups]

theorem eraseDups_nodup (entries : List α) : entries.eraseDups.Nodup := by
  match entries with
  | [] => exact List.nodup_nil
  | first :: rest =>
    rw [List.eraseDups_cons, List.nodup_cons]
    refine ⟨?_, eraseDups_nodup _⟩
    rw [List.mem_eraseDups]
    simp
termination_by entries.length
decreasing_by
  have := List.length_filter_le (fun other => !other == first) rest
  simp only [List.length_cons]
  omega

theorem nodup_arranged (entries : List α) : (arranged le entries).Nodup :=
  (sorted_perm _).nodup_iff.2 (eraseDups_nodup entries)

omit [LawfulBEq α] in
theorem pairwise_arranged (order : IsOrder le) (entries : List α) :
    (arranged le entries).Pairwise fun a b => le a b = true :=
  pairwise_sorted order.trans order.total _

theorem arranged_eq_iff (order : IsOrder le) {xs ys : List α} :
    arranged le xs = arranged le ys ↔ ∀ a, a ∈ xs ↔ a ∈ ys := by
  constructor
  · intro h a
    have kept : a ∈ arranged le xs ↔ a ∈ xs := mem_arranged
    rw [← kept, h, mem_arranged]
  · intro h
    refine List.Perm.eq_of_pairwise (fun a b _ _ => order.antisymm a b)
      (pairwise_arranged order xs) (pairwise_arranged order ys) ?_
    refine (List.perm_ext_iff_of_nodup (nodup_arranged xs) (nodup_arranged ys)).2 ?_
    intro a
    rw [mem_arranged, mem_arranged, h]

end Arranged

/-! ## Names -/

/-- Whether a name comes no later than another. -/
def inOrder (s t : String) : Bool := decide (s ≤ t)

theorem isOrder_inOrder : IsOrder inOrder where
  trans a b c := by
    simp only [inOrder, decide_eq_true_eq]
    exact String.le_trans
  total a b := by
    simp only [inOrder, Bool.or_eq_true, decide_eq_true_eq]
    exact String.le_total a b
  antisymm a b := by
    simp only [inOrder, decide_eq_true_eq]
    exact String.le_antisymm

/-- The names of a list in order, each once. -/
def sortedNames (names : List String) : List String := arranged inOrder names

@[simp] theorem mem_sortedNames {name : String} {names : List String} :
    name ∈ sortedNames names ↔ name ∈ names := mem_arranged

theorem nodup_sortedNames (names : List String) : (sortedNames names).Nodup :=
  nodup_arranged names

theorem sortedNames_eq_iff {xs ys : List String} :
    sortedNames xs = sortedNames ys ↔ ∀ name, name ∈ xs ↔ name ∈ ys :=
  arranged_eq_iff isOrder_inOrder

/-! ## Pairs of names -/

/-- Whether a pair comes no later than another. -/
def pairInOrder (p q : String × String) : Bool :=
  if p.1 = q.1 then inOrder p.2 q.2 else inOrder p.1 q.1

theorem isOrder_pairInOrder : IsOrder pairInOrder where
  trans := by
    rintro ⟨a, a'⟩ ⟨b, b'⟩ ⟨c, c'⟩ hab hbc
    simp only [pairInOrder] at *
    by_cases eab : a = b
    · subst eab
      by_cases eac : a = c
      · subst eac
        simp only [if_true] at *
        exact isOrder_inOrder.trans _ _ _ hab hbc
      · simpa [eac] using hbc
    · by_cases ebc : b = c
      · subst ebc
        simpa [eab] using hab
      · by_cases eac : a = c
        · subst eac
          simp only [eab, ebc, if_false] at hab hbc
          exact absurd (isOrder_inOrder.antisymm _ _ hab hbc) eab
        · simp only [eab, ebc, eac, if_false] at *
          exact isOrder_inOrder.trans _ _ _ hab hbc
  total := by
    rintro ⟨a, a'⟩ ⟨b, b'⟩
    simp only [pairInOrder]
    by_cases e : a = b
    · subst e
      simpa using isOrder_inOrder.total a' b'
    · have e' : b ≠ a := fun h => e h.symm
      simpa [e, e'] using isOrder_inOrder.total a b
  antisymm := by
    rintro ⟨a, a'⟩ ⟨b, b'⟩ hab hba
    simp only [pairInOrder] at hab hba
    by_cases e : a = b
    · subst e
      simp only [if_true] at hab hba
      rw [isOrder_inOrder.antisymm _ _ hab hba]
    · have e' : b ≠ a := fun h => e h.symm
      simp only [e, e', if_false] at hab hba
      exact absurd (isOrder_inOrder.antisymm _ _ hab hba) e

/-- The pairs of a list in order, each once. -/
def sortedPairs (pairs : List (String × String)) : List (String × String) :=
  arranged pairInOrder pairs

@[simp] theorem mem_sortedPairs {pair : String × String} {pairs : List (String × String)} :
    pair ∈ sortedPairs pairs ↔ pair ∈ pairs := mem_arranged

theorem sortedPairs_eq_iff {xs ys : List (String × String)} :
    sortedPairs xs = sortedPairs ys ↔ ∀ pair, pair ∈ xs ↔ pair ∈ ys :=
  arranged_eq_iff isOrder_pairInOrder

end BlockDiagram.Text
