/-!
# Tables in insertion order

A table is a list of keyed entries in which an entry that is written again keeps its place. Keys
are meant to be distinct; `put` and `erase` keep them so.

* `get?_put_self`, `get?_put_of_ne`: what a written key and the other keys hold.
* `keys_put`: a new key comes last, a known one changes no order.
* `get?_erase_self`, `get?_erase_of_ne`: what is left after a key is erased.
* `mem_put`, `mem_of_mem_ofList`: an entry of a written table was written or there before.
* `get?_map`: what a table holds whose entries are mapped.
* `nodup_keys_put`, `nodup_keys_erase`, `nodup_keys_ofList`: keys stay distinct.
* `ofList_eq_self`: entries with distinct keys are a table as they stand.
* `get?_eq_some_iff`: with distinct keys an entry is found exactly if it is in the table.
-/

namespace BlockDiagram

/-- Entries under text keys, in insertion order. -/
abbrev Table (α : Type) := List (String × α)

namespace Table

variable {α : Type}

/-- The first entry under a key. -/
def get? : Table α → String → Option α
  | [], _ => none
  | (k, v) :: rest, key => if k = key then some v else get? rest key

def has (t : Table α) (key : String) : Bool := (t.get? key).isSome

/-- The keys in order. -/
def keys (t : Table α) : List String := t.map Prod.fst

/-- The entries in order, without their keys. -/
def values (t : Table α) : List α := t.map Prod.snd

/-- Writes an entry: in its place if the key is known, at the end otherwise. -/
def put : Table α → String → α → Table α
  | [], key, value => [(key, value)]
  | (k, v) :: rest, key, value =>
    if k = key then (k, value) :: rest else (k, v) :: put rest key value

/-- The table without the entries under a key. -/
def erase (t : Table α) (key : String) : Table α := t.filter fun entry => entry.1 != key

/-- The entries written one after another, so that a later one wins. -/
def ofList (entries : List (String × α)) : Table α :=
  entries.foldl (fun t entry => t.put entry.1 entry.2) []

@[simp] theorem get?_nil (key : String) : get? ([] : Table α) key = none := rfl

theorem get?_cons (k : String) (v : α) (rest : Table α) (key : String) :
    get? ((k, v) :: rest) key = if k = key then some v else get? rest key := rfl

@[simp] theorem get?_put_self (t : Table α) (key : String) (value : α) :
    (t.put key value).get? key = some value := by
  induction t with
  | nil => simp [put, get?]
  | cons entry rest ih =>
    obtain ⟨k, v⟩ := entry
    by_cases h : k = key <;> simp [put, get?, h, ih]

theorem get?_put_of_ne (t : Table α) {key other : String} (value : α) (ne : other ≠ key) :
    (t.put key value).get? other = t.get? other := by
  induction t with
  | nil => simp [put, get?, ne.symm]
  | cons entry rest ih =>
    obtain ⟨k, v⟩ := entry
    by_cases h : k = key
    · subst h
      simp [put, get?, ne.symm]
    · by_cases h' : k = other
      · subst h'
        simp [put, get?, h]
      · simp [put, get?, h, h', ih]

theorem mem_keys_iff {t : Table α} {key : String} :
    key ∈ t.keys ↔ t.has key = true := by
  induction t with
  | nil => simp [keys, has]
  | cons entry rest ih =>
    obtain ⟨k, v⟩ := entry
    by_cases h : k = key
    · simp [keys, has, get?, h]
    · have h' : key ≠ k := fun e => h e.symm
      simpa [keys, has, get?, h, h'] using ih

theorem keys_put (t : Table α) (key : String) (value : α) :
    (t.put key value).keys = if t.has key then t.keys else t.keys ++ [key] := by
  induction t with
  | nil => simp [put, keys, has]
  | cons entry rest ih =>
    obtain ⟨k, v⟩ := entry
    by_cases h : k = key
    · simp [put, keys, has, get?, h]
    · simp only [keys, has] at ih
      by_cases known : (get? rest key).isSome <;> simp [put, keys, has, get?, h, ih, known]

@[simp] theorem get?_erase_self (t : Table α) (key : String) : (t.erase key).get? key = none := by
  induction t with
  | nil => rfl
  | cons entry rest ih =>
    obtain ⟨k, v⟩ := entry
    simp only [erase] at ih
    by_cases h : k = key <;> simp [erase, get?, h, ih]

theorem get?_erase_of_ne (t : Table α) {key other : String} (ne : other ≠ key) :
    (t.erase key).get? other = t.get? other := by
  induction t with
  | nil => rfl
  | cons entry rest ih =>
    obtain ⟨k, v⟩ := entry
    simp only [erase] at ih
    by_cases h : k = key
    · subst h
      simp [erase, get?, ne.symm, ih]
    · by_cases h' : k = other
      · subst h'
        simp [erase, get?, h]
      · simp [erase, get?, h, h', ih]

/-! ## Entries and keys -/

theorem mem_of_get? {t : Table α} {key : String} {value : α} (h : t.get? key = some value) :
    (key, value) ∈ t := by
  induction t with
  | nil => cases h
  | cons entry rest ih =>
    obtain ⟨k, v⟩ := entry
    rw [get?_cons] at h
    split at h
    · next same =>
      rw [← same, Option.some.inj h]
      exact List.mem_cons_self
    · exact List.mem_cons_of_mem _ (ih h)

theorem mem_put {t : Table α} {key : String} {value : α} {entry : String × α}
    (h : entry ∈ t.put key value) : entry = (key, value) ∨ entry ∈ t := by
  induction t with
  | nil => exact .inl (List.mem_singleton.1 h)
  | cons first rest ih =>
    obtain ⟨k, v⟩ := first
    rw [put] at h
    split at h
    · next same =>
      rcases List.mem_cons.1 h with h | h
      · exact .inl (h.trans (by rw [same]))
      · exact .inr (List.mem_cons_of_mem _ h)
    · rcases List.mem_cons.1 h with h | h
      · exact .inr (h ▸ List.mem_cons_self)
      · exact (ih h).imp_right (List.mem_cons_of_mem _)

theorem mem_of_mem_ofList {entries : List (String × α)} {entry : String × α}
    (h : entry ∈ ofList entries) : entry ∈ entries := by
  suffices hfold : ∀ (entries : List (String × α)) (t : Table α),
      entry ∈ entries.foldl (fun t entry => t.put entry.1 entry.2) t →
      entry ∈ t ∨ entry ∈ entries from (hfold entries [] h).resolve_left (by simp)
  intro entries
  induction entries with
  | nil => exact fun t h => .inl h
  | cons first rest ih =>
    intro t h
    rcases ih _ h with h | h
    · rcases mem_put h with h | h
      · exact .inr (h ▸ List.mem_cons_self)
      · exact .inl h
    · exact .inr (List.mem_cons_of_mem _ h)

theorem has_of_mem {t : Table α} {key : String} {value : α} (h : (key, value) ∈ t) :
    t.has key = true :=
  mem_keys_iff.1 (List.mem_map_of_mem (f := Prod.fst) h)

theorem has_put (t : Table α) (key other : String) (value : α) :
    (t.put key value).has other = true ↔ other = key ∨ t.has other = true := by
  by_cases h : other = key
  · subst h
    simp [has]
  · simp [has, get?_put_of_ne t value h, h]

theorem has_erase (t : Table α) (key other : String) :
    (t.erase key).has other = true ↔ other ≠ key ∧ t.has other = true := by
  by_cases h : other = key
  · subst h
    simp [has]
  · simp [has, get?_erase_of_ne t h, h]

/-! ## Tables under a map of their entries -/

variable {β : Type}

@[simp] theorem keys_map (f : String × α → β) (t : Table α) :
    keys (t.map fun entry => (entry.1, f entry)) = t.keys := by
  simp [keys]

theorem erase_map (f : String × α → β) (t : Table α) (key : String) :
    erase (t.map fun entry => (entry.1, f entry)) key
      = (t.erase key).map fun entry => (entry.1, f entry) := by
  simp only [erase, List.filter_map]
  rfl

theorem get?_map (f : String × α → β) (t : Table α) (key : String) :
    get? (t.map fun entry => (entry.1, f entry)) key
      = (t.get? key).map fun value => f (key, value) := by
  induction t with
  | nil => rfl
  | cons entry rest ih =>
    obtain ⟨k, v⟩ := entry
    rw [List.map_cons, get?_cons, get?_cons, ih]
    split
    · next same => rw [← same]; rfl
    · rfl

theorem map_put_of_get? {f : α → β} {t : Table α} {key : String} {old new : α}
    (hold : t.get? key = some old) (hsame : f new = f old) :
    ((t.put key new).map fun entry => (entry.1, f entry.2))
      = t.map fun entry => (entry.1, f entry.2) := by
  induction t with
  | nil => cases hold
  | cons entry rest ih =>
    obtain ⟨k, v⟩ := entry
    rw [get?_cons] at hold
    rw [put]
    split at hold
    · next same => simp [same, hsame, Option.some.inj hold]
    · next differs => simp [differs, ih hold]

/-! ## Distinct keys -/

theorem keys_erase (t : Table α) (key : String) :
    (t.erase key).keys = t.keys.filter fun k => k != key := by
  simp only [erase, keys, List.filter_map]
  rfl

theorem nodup_keys_put {t : Table α} (distinct : t.keys.Nodup) (key : String) (value : α) :
    (t.put key value).keys.Nodup := by
  rw [keys_put]
  split
  · exact distinct
  · next new =>
    rw [List.nodup_append]
    refine ⟨distinct, by simp, ?_⟩
    rintro k known _ hk rfl
    rw [List.mem_singleton.1 hk] at known
    exact new (mem_keys_iff.1 known)

theorem nodup_keys_erase {t : Table α} (distinct : t.keys.Nodup) (key : String) :
    (t.erase key).keys.Nodup := by
  rw [keys_erase]
  exact distinct.filter _

theorem nodup_keys_ofList (entries : List (String × α)) : (ofList entries).keys.Nodup := by
  suffices h : ∀ t : Table α, t.keys.Nodup →
      (entries.foldl (fun t entry => t.put entry.1 entry.2) t).keys.Nodup from h [] List.nodup_nil
  intro t distinct
  induction entries generalizing t with
  | nil => exact distinct
  | cons entry rest ih => exact ih _ (nodup_keys_put distinct entry.1 entry.2)

theorem put_of_not_mem {t : Table α} {key : String} (h : key ∉ t.keys) (value : α) :
    t.put key value = t ++ [(key, value)] := by
  induction t with
  | nil => rfl
  | cons entry rest ih =>
    obtain ⟨k, v⟩ := entry
    rw [keys, List.map_cons, List.mem_cons, not_or] at h
    obtain ⟨hne, hrest⟩ := h
    rw [put, if_neg (Ne.symm hne), ih hrest, List.cons_append]

theorem ofList_eq_self {entries : Table α} (distinct : entries.keys.Nodup) :
    ofList entries = entries := by
  suffices h : ∀ t : Table α, (t ++ entries).keys.Nodup →
      entries.foldl (fun t entry => t.put entry.1 entry.2) t = t ++ entries from h [] distinct
  clear distinct
  induction entries with
  | nil => exact fun t _ => (List.append_nil t).symm
  | cons entry rest ih =>
    intro t distinct
    have hsplit : t ++ entry :: rest = (t ++ [entry]) ++ rest := List.append_cons t entry rest
    have hnew : entry.1 ∉ t.keys := by
      rw [keys, List.map_append, List.nodup_append] at distinct
      exact fun hmem => distinct.2.2 _ hmem _ List.mem_cons_self rfl
    rw [List.foldl_cons, put_of_not_mem hnew, ih _ (hsplit ▸ distinct), hsplit]

theorem get?_eq_some_iff {t : Table α} (distinct : t.keys.Nodup) {key : String} {value : α} :
    t.get? key = some value ↔ (key, value) ∈ t := by
  induction t with
  | nil => simp
  | cons entry rest ih =>
    obtain ⟨k, v⟩ := entry
    obtain ⟨new, distinct⟩ := List.nodup_cons.1 distinct
    rw [get?_cons, List.mem_cons]
    split
    · next h =>
      subst h
      constructor
      · intro found
        exact .inl (by rw [Option.some.inj found])
      · rintro (same | there)
        · rw [(Prod.mk.inj same).2]
        · exact absurd (List.mem_map_of_mem (f := Prod.fst) there) new
    · next h =>
      rw [ih distinct]
      constructor
      · exact .inr
      · rintro (same | there)
        · exact absurd (Prod.mk.inj same).1.symm h
        · exact there

end Table

end BlockDiagram
