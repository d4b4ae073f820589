import BlockDiagram.Store
import Mathlib.Data.List.Nodup

/-!
# What a store holds after an operation

Keys stay distinct. Reading changes no entry, writing and deleting none but that of their key, and
no operation brings back an entry that was dropped.

* `peek?_get`: reading changes no entry.
* `peek?_set_self`, `peek?_of_peek?_set`: what is held after a write.
* `peek?_delete`: what is held after a deletion.
-/

namespace BlockDiagram

namespace Table

variable {α : Type}

theorem get?_append (t u : Table α) (key : String) :
    get? (t ++ u) key = (t.get? key).or (get? u key) := by
  induction t with
  | nil => rfl
  | cons entry rest ih =>
    obtain ⟨k, v⟩ := entry
    rw [List.cons_append, get?_cons, get?_cons, ih]
    split <;> rfl

theorem get?_eq_none_iff {t : Table α} {key : String} : t.get? key = none ↔ key ∉ t.keys := by
  rw [mem_keys_iff, has]
  simp

/-- What is found in the end of a table is found in the table. -/
theorem get?_of_get?_drop {t : Table α} (hkeys : t.keys.Nodup) {count : Nat} {key : String}
    {value : α} (h : get? (t.drop count) key = some value) : t.get? key = some value :=
  (get?_eq_some_iff hkeys).2 (List.mem_of_mem_drop (mem_of_get? h))

theorem erase_of_get?_eq_none {t : Table α} {key : String} (h : t.get? key = none) :
    t.erase key = t := by
  refine List.filter_eq_self.2 fun entry hentry => ?_
  have hne : entry.1 ≠ key := by
    rintro rfl
    exact get?_eq_none_iff.1 h (List.mem_map_of_mem hentry)
  simpa using hne

end Table

namespace Store

variable {α : Type}

/-- The entries of a store, the one under a key written last. -/
theorem get?_written (t : Table α) (id other : String) (value : α) :
    Table.get? (t.erase id ++ [(id, value)]) other
      = if other = id then some value else t.get? other := by
  rw [Table.get?_append]
  by_cases h : other = id
  · subst h
    simp [Table.get?]
  · have hne : ¬ id = other := fun e => h e.symm
    simp [Table.get?_erase_of_ne t h, Table.get?, h, hne]

theorem nodup_written {t : Table α} (hkeys : t.keys.Nodup) (id : String) (value : α) :
    (Table.keys (t.erase id ++ [(id, value)])).Nodup := by
  have happend : Table.keys (t.erase id ++ [(id, value)]) = (t.erase id).keys ++ [id] := by
    simp [Table.keys]
  rw [happend, List.nodup_append]
  refine ⟨Table.nodup_keys_erase hkeys id, List.nodup_singleton _, ?_⟩
  intro key hkey other hother heq
  rw [List.mem_singleton.1 hother] at heq
  rw [heq, Table.mem_keys_iff, Table.has_erase] at hkey
  exact hkey.1 rfl

/-! ## Reading -/

theorem get_of_peek?_eq_some {s : Store α} {id : String} {value : α}
    (h : s.peek? id = some value) :
    s.get id = (some value, { s with entries := s.entries.erase id ++ [(id, value)] }) := by
  rw [peek?] at h
  simp only [get, h]

theorem get_of_peek?_eq_none {s : Store α} {id : String} (h : s.peek? id = none) :
    s.get id = (none, s) := by
  rw [peek?] at h
  simp only [get, h]

theorem peek?_get (s : Store α) (id other : String) :
    (s.get id).2.peek? other = s.peek? other := by
  cases h : s.peek? id with
  | none => rw [get_of_peek?_eq_none h]
  | some value =>
    rw [get_of_peek?_eq_some h, peek?, get?_written]
    split
    · next same => rw [same, h]
    · rfl

theorem nodup_ids_get {s : Store α} (hids : s.ids.Nodup) (id : String) :
    (s.get id).2.ids.Nodup := by
  cases h : s.peek? id with
  | none => rw [get_of_peek?_eq_none h]; exact hids
  | some value => rw [get_of_peek?_eq_some h]; exact nodup_written hids id value

/-! ## Writing -/

theorem peek?_set_self (s : Store α) (id : String) (value : α) :
    (s.set id value).1.peek? id = some value := by
  have hdrop : ((s.entries.erase id ++ [(id, value)]).drop
      ((s.entries.erase id ++ [(id, value)]).length - s.capacity))
      = (s.entries.erase id).drop
          ((s.entries.erase id ++ [(id, value)]).length - s.capacity) ++ [(id, value)] := by
    refine List.drop_append_of_le_length ?_
    have hpositive := s.positive
    simp only [List.length_append, List.length_singleton]
    omega
  simp only [peek?, set, hdrop, Table.get?_append]
  have hnone : Table.get? ((s.entries.erase id).drop
      ((s.entries.erase id ++ [(id, value)]).length - s.capacity)) id = none := by
    refine Table.get?_eq_none_iff.2 fun hkey => ?_
    obtain ⟨entry, hentry, hid⟩ := List.mem_map.1 hkey
    have herased := List.mem_filter.1 (List.mem_of_mem_drop hentry)
    simp [hid] at herased
  rw [hnone]
  simp [Table.get?]

/-- What is held after a write is the written entry or was held before. -/
theorem peek?_of_peek?_set {s : Store α} (hids : s.ids.Nodup) {id other : String} {value found : α}
    (h : (s.set id value).1.peek? other = some found) :
    (other = id ∧ found = value) ∨ (other ≠ id ∧ s.peek? other = some found) := by
  have hwritten := Table.get?_of_get?_drop (nodup_written hids id value) h
  rw [get?_written] at hwritten
  split at hwritten
  · next same => exact .inl ⟨same, (Option.some.inj hwritten).symm⟩
  · next differs => exact .inr ⟨differs, hwritten⟩

theorem nodup_ids_set {s : Store α} (hids : s.ids.Nodup) (id : String) (value : α) :
    (s.set id value).1.ids.Nodup := by
  have hwritten := nodup_written hids id value
  simp only [ids, set, Table.keys, List.map_drop] at hwritten ⊢
  exact hwritten.sublist (List.drop_sublist _ _)

/-! ## Deleting -/

theorem peek?_delete (s : Store α) (id other : String) :
    (s.delete id).2.peek? other = if other = id then none else s.peek? other := by
  simp only [peek?, delete]
  split
  · next same => rw [same, Table.get?_erase_self]
  · next differs => exact Table.get?_erase_of_ne _ differs

theorem nodup_ids_delete {s : Store α} (hids : s.ids.Nodup) (id : String) :
    (s.delete id).2.ids.Nodup :=
  Table.nodup_keys_erase hids id

end Store

end BlockDiagram
