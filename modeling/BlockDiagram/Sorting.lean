/-!
# Sorting

A list is sorted by a test that says which of two items may stand first. Its items are put in place
from the last one to the first, each before all those that it may precede, so items that may stand
either way keep their order.

* `sorted_perm`: sorting moves items and does nothing else.
* `pairwise_sorted`: afterwards every item may stand before all that follow.
-/

namespace BlockDiagram

variable {α : Type} {mayPrecede : α → α → Bool}

/-- Sorted items with one more in its place. -/
def inserted (mayPrecede : α → α → Bool) (item : α) : List α → List α
  | [] => [item]
  | first :: rest =>
    if mayPrecede item first then item :: first :: rest
    else first :: inserted mayPrecede item rest

/-- The items of a list, sorted by a test. -/
def sorted (mayPrecede : α → α → Bool) (items : List α) : List α :=
  items.foldr (inserted mayPrecede) []

theorem inserted_perm (item : α) (items : List α) :
    (inserted mayPrecede item items).Perm (item :: items) := by
  induction items with
  | nil => exact .refl _
  | cons first rest ih =>
    rw [inserted]
    split
    · exact .refl _
    · exact (ih.cons first).trans (.swap item first rest)

theorem sorted_perm (items : List α) : (sorted mayPrecede items).Perm items := by
  induction items with
  | nil => exact .refl _
  | cons first rest ih => exact (inserted_perm first _).trans (ih.cons first)

theorem mem_sorted {item : α} {items : List α} : item ∈ sorted mayPrecede items ↔ item ∈ items :=
  (sorted_perm items).mem_iff

section Order

variable (htrans : ∀ a b c, mayPrecede a b = true → mayPrecede b c = true → mayPrecede a c = true)
  (htotal : ∀ a b, (mayPrecede a b || mayPrecede b a) = true)
include htrans htotal

theorem pairwise_inserted (item : α) {items : List α}
    (h : items.Pairwise fun a b => mayPrecede a b = true) :
    (inserted mayPrecede item items).Pairwise fun a b => mayPrecede a b = true := by
  induction items with
  | nil => exact List.pairwise_singleton _ item
  | cons first rest ih =>
    obtain ⟨hfirst, hrest⟩ := List.pairwise_cons.1 h
    rw [inserted]
    split
    · next hitem =>
      refine List.pairwise_cons.2 ⟨List.forall_mem_cons.2 ⟨hitem, fun other hother => ?_⟩, h⟩
      exact htrans _ _ _ hitem (hfirst other hother)
    · next hitem =>
      have hbefore : mayPrecede first item = true := by simpa [hitem] using htotal item first
      refine List.pairwise_cons.2 ⟨fun other hother => ?_, ih hrest⟩
      rcases List.mem_cons.1 ((inserted_perm item rest).mem_iff.1 hother) with rfl | hother
      · exact hbefore
      · exact hfirst other hother

theorem pairwise_sorted (items : List α) :
    (sorted mayPrecede items).Pairwise fun a b => mayPrecede a b = true := by
  induction items with
  | nil => exact .nil
  | cons first rest ih => exact pairwise_inserted htrans htotal first ih

end Order

end BlockDiagram
