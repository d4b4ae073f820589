import BlockDiagram.Error

/-!
# Bounded stores

A store keeps a limited number of entries, from the least to the most recently used one. Reading
and writing make an entry the most recent; writing into a full store drops the least recent one.

* `Store.get`, `Store.contains`, `Store.set`, `Store.delete`: each with the store after it.
* `Store.ids`: the keys in order of use.
-/

namespace BlockDiagram

/-- A store of at most `capacity` entries. -/
structure Store (α : Type) where
  capacity : Nat
  entries : Table α
  positive : 0 < capacity

namespace Store

variable {α : Type}

/-- How many entries a value allows: a number counts up to the next whole one below it, and one
without bound up to a count that is never reached. -/
def room (capacity : Value) : Except Error Int :=
  match capacity.number? with
  | some (.whole n) => .ok n
  | some (.real x) =>
    .ok (if x.isFinite then x.value.floor
      else if x.lt (.rational 0) then 0
      else 18446744073709551616)
  | none => .error (.defect .wrongType)

/-- An empty store; it has room for one entry at least. -/
def make? (α : Type) (capacity : Int) : Except Error (Store α) :=
  if h : 0 < capacity then .ok ⟨capacity.toNat, [], by omega⟩ else .error (.defect .badValue)

/-- The keys from the least to the most recently used one. -/
def ids (s : Store α) : List String := s.entries.keys

/-- The entry under a key, not used by looking. -/
def peek? (s : Store α) (id : String) : Option α := s.entries.get? id

/-- The entry under a key, and the store in which it is the most recent one. -/
def get (s : Store α) (id : String) : Option α × Store α :=
  match s.entries.get? id with
  | some value => (some value, { s with entries := s.entries.erase id ++ [(id, value)] })
  | none => (none, s)

/-- Whether there is an entry under a key, and the store after reading it. -/
def contains (s : Store α) (id : String) : Bool × Store α :=
  let (found, read) := s.get id
  (found.isSome, read)

/-- The store with an entry written, and the keys of the entries dropped for it. -/
def set (s : Store α) (id : String) (value : α) : Store α × List String :=
  let written := s.entries.erase id ++ [(id, value)]
  let surplus := written.length - s.capacity
  ({ s with entries := written.drop surplus }, Table.keys (written.take surplus))

/-- A store never holds more than it has room for. -/
theorem length_entries_set_le (s : Store α) (id : String) (value : α) :
    (s.set id value).1.entries.length ≤ s.capacity := by
  simp only [set, List.length_drop]
  omega

/-- Whether there was an entry under a key, and the store without it. -/
def delete (s : Store α) (id : String) : Bool × Store α :=
  (s.entries.has id, { s with entries := s.entries.erase id })

end Store

end BlockDiagram
