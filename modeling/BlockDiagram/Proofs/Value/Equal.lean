import BlockDiagram.Proofs.Configuration.Nodes
import BlockDiagram.Value.Arithmetic
import Mathlib.Data.List.Forall2

/-!
# When a value equals itself

What is not a number equals nothing, not even itself. A value that holds none, and whose records
hold each key once, equals itself, and a record equals another one with equal values under the same
keys.

* `equal_of_forall₂`: records with equal values under the same keys.
* `equal_self`: a value and itself.
-/

namespace BlockDiagram.Value

mutual

/-- Whether a value holds nothing that is not a number, at any depth. -/
def hasNoNan : Value → Bool
  | float x => x != .nan
  | list items => itemsHaveNoNan items
  | record fields => fieldsHaveNoNan fields
  | _ => true

def itemsHaveNoNan : List Value → Bool
  | [] => true
  | item :: rest => item.hasNoNan && itemsHaveNoNan rest

def fieldsHaveNoNan : List (String × Value) → Bool
  | [] => true
  | (_, value) :: rest => value.hasNoNan && fieldsHaveNoNan rest

end

theorem hasNoNan_of_mem_items {items : List Value} (h : itemsHaveNoNan items = true) {item : Value}
    (hitem : item ∈ items) : item.hasNoNan = true := by
  induction items with
  | nil => cases hitem
  | cons first rest ih =>
    rw [itemsHaveNoNan, Bool.and_eq_true] at h
    rcases List.mem_cons.1 hitem with rfl | hitem
    · exact h.1
    · exact ih h.2 hitem

theorem hasNoNan_of_mem_fields {fields : List (String × Value)}
    (h : fieldsHaveNoNan fields = true) {key : String} {value : Value}
    (hmem : (key, value) ∈ fields) : value.hasNoNan = true := by
  induction fields with
  | nil => cases hmem
  | cons field rest ih =>
    obtain ⟨k, v⟩ := field
    rw [fieldsHaveNoNan, Bool.and_eq_true] at h
    rcases List.mem_cons.1 hmem with heq | hmem
    · cases heq
      exact h.1
    · exact ih h.2 hmem

theorem hasDistinctKeys_of_mem_items {items : List Value} (h : itemsHaveDistinctKeys items = true)
    {item : Value} (hitem : item ∈ items) : item.hasDistinctKeys = true := by
  induction items with
  | nil => cases hitem
  | cons first rest ih =>
    rw [itemsHaveDistinctKeys, Bool.and_eq_true] at h
    rcases List.mem_cons.1 hitem with rfl | hitem
    · exact h.1
    · exact ih h.2 hitem

/-! ## Equality -/

theorem eq_self {x : Binary64} (h : (x != .nan) = true) : x.eq x = true := by
  cases x with
  | nan => cases h
  | infinity negative => exact beq_self_eq_true negative
  | negativeZero => rfl
  | rational q => exact decide_eq_true rfl

theorem equalItems_of_forall₂ {items others : List Value}
    (h : List.Forall₂ (fun item other => equal item other = true) items others) :
    equalItems items others = true := by
  induction h with
  | nil => rfl
  | cons hfirst _ ih => rw [equalItems, hfirst, ih]; rfl

theorem equalFields_of_forall₂ {fields others all : List (String × Value)}
    (hkeys : (Table.keys all).Nodup) (hothers : others ⊆ all)
    (h : List.Forall₂ (fun field other => field.1 = other.1 ∧ equal field.2 other.2 = true)
      fields others) : equalFields fields all = true := by
  induction h with
  | nil => rfl
  | @cons field other _ _ hfirst _ ih =>
    obtain ⟨key, value⟩ := field
    obtain ⟨k, found⟩ := other
    obtain ⟨rfl, hequal⟩ : key = k ∧ equal value found = true := hfirst
    obtain ⟨hhere, hrest⟩ := List.cons_subset.1 hothers
    rw [equalFields, (Table.get?_eq_some_iff hkeys).2 hhere, ih hrest]
    simp only [hequal, Bool.and_self]

/-- Records with equal values under the same keys, in the same order, are equal. -/
theorem equal_of_forall₂ {fields others : List (String × Value)} (hkeys : (Table.keys others).Nodup)
    (h : List.Forall₂ (fun field other => field.1 = other.1 ∧ equal field.2 other.2 = true)
      fields others) : equal (record fields) (record others) = true := by
  rw [equal, h.length_eq, beq_self_eq_true, Bool.true_and]
  exact equalFields_of_forall₂ hkeys (List.Subset.refl others) h

/-- A value that holds numbers alone, and each key once, equals itself. -/
theorem equal_self (value : Value) (hnan : value.hasNoNan = true)
    (hkeys : value.hasDistinctKeys = true) : equal value value = true := by
  match value with
  | null => rfl
  | bool b => exact decide_eq_true rfl
  | int n => exact decide_eq_true rfl
  | float x => exact eq_self hnan
  | text s => exact beq_self_eq_true s
  | list items =>
    exact equalItems_of_forall₂ (List.forall₂_same.2 fun item hitem =>
      equal_self item (hasNoNan_of_mem_items hnan hitem) (hasDistinctKeys_of_mem_items hkeys hitem))
  | record fields =>
    exact equal_of_forall₂ (nodup_keys_of_hasDistinctKeys hkeys)
      (List.forall₂_same.2 fun (_, value) hmem => ⟨rfl, equal_self value
        (hasNoNan_of_mem_fields hnan hmem) (hasDistinctKeys_of_mem hkeys hmem)⟩)
termination_by value
decreasing_by
  · have hsize := List.sizeOf_lt_of_mem hitem
    rw [list.sizeOf_spec]
    omega
  · have hsize := List.sizeOf_lt_of_mem hmem
    rw [Prod.mk.sizeOf_spec] at hsize
    rw [record.sizeOf_spec]
    omega

end BlockDiagram.Value
