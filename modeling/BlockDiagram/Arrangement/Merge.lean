import BlockDiagram.Arrangement.Leap

/-!
# Merging two arranged lists

Two lists are merged by comparing their first items and putting out the one that goes first. When
one list has given several items in a row, so many as a threshold says, leaps take the place of
single comparisons until they are short. Every round of leaps lowers the threshold, and going back
to single comparisons raises it; it is handed on from one merge to the next.

The shorter list decides from which end merging goes. From the far end both lists are mirrored.

* `Arrangement.merge`: two arranged lists as one.
-/

namespace BlockDiagram.Arrangement

variable {α ε : Type}

/-- Two lists in the middle of a merge: the items put out, the last one first, and what is left of
either. -/
structure Merging (α : Type) where
  out : List α
  xs : List α
  ys : List α
deriving Repr

namespace Merging

/-- A merge with some items of the first list put out. -/
def takeX (count : Nat) (m : Merging α) : Merging α :=
  ⟨(m.xs.take count).reverse ++ m.out, m.xs.drop count, m.ys⟩

/-- A merge with some items of the second list put out. -/
def takeY (count : Nat) (m : Merging α) : Merging α :=
  ⟨(m.ys.take count).reverse ++ m.out, m.xs, m.ys.drop count⟩

/-- Whether there is nothing left to compare: one list is empty, or the nearer one has a single item
left, which is known to go last. -/
def isOver (mirrored : Bool) (m : Merging α) : Bool :=
  if mirrored then m.xs.isEmpty || decide (m.ys.length ≤ 1)
  else m.ys.isEmpty || decide (m.xs.length ≤ 1)

/-- The merged list, when there is nothing left to compare. -/
def finished (mirrored : Bool) (m : Merging α) : List α :=
  m.out.reverse ++ if mirrored then m.xs ++ m.ys else m.ys ++ m.xs

end Merging

/-- How the next item is found: by single comparisons, with the numbers of items that either list
has given in a row, or by leaps, for the first time or once more. -/
inductive Mode where
  | counting (xs ys : Nat)
  | leaping (again : Bool)
deriving DecidableEq, Repr

section Merge

variable (mirrored : Bool) (goesFirst : α → α → Except ε Bool)

/-- A merge after one round of leaps, which ends where nothing is left to compare, and whether the
leaps were long. `goesFirst y x` asks whether an item of the second list goes before one of the
first. -/
def round (m : Merging α) : Except ε (Merging α × Bool) :=
  match m.xs, m.ys with
  | [], _ => .ok (m, false)
  | _, [] => .ok (m, false)
  | _, y :: _ => do
    let count ← leap mirrored (fun x => return !(← goesFirst y x)) m.xs
    let m := m.takeX count
    if m.isOver mirrored then return (m, false)
    let m := m.takeY 1
    if m.isOver mirrored then return (m, false)
    match m.xs with
    | [] => return (m, false)
    | x :: _ =>
      let other ← leap mirrored (fun y => goesFirst y x) m.ys
      let m := m.takeY other
      if m.isOver mirrored then return (m, false)
      return (m.takeX 1, decide (7 ≤ count ∨ 7 ≤ other))

/-- A merge to its end within a number of steps, and the threshold after it. -/
def mergeWithin : Nat → Mode → Nat → Merging α → Except ε (List α × Nat)
  | 0, _, threshold, m => .ok (m.finished mirrored, threshold)
  | steps + 1, .counting givenX givenY, threshold, m =>
    match m.xs, m.ys with
    | x :: _, y :: _ => do
      let isY ← goesFirst y x
      let m := if isY then m.takeY 1 else m.takeX 1
      if m.isOver mirrored then return (m.finished mirrored, threshold)
      let given := if isY then givenY + 1 else givenX + 1
      let mode := if threshold ≤ given then .leaping false
        else if isY then .counting 0 given else .counting given 0
      mergeWithin steps mode threshold m
    | _, _ => .ok (m.finished mirrored, threshold)
  | steps + 1, .leaping again, threshold, m => do
    let lowered := if again && decide (1 < threshold) then threshold - 1 else threshold
    let (m, isLong) ← round mirrored goesFirst m
    if m.isOver mirrored then return (m.finished mirrored, lowered)
    if isLong then mergeWithin steps (.leaping true) lowered m
    else mergeWithin steps (.counting 0 0) (lowered + 1) m

/-- A merge to its end whose first item is known. -/
def mergeAfter (threshold : Nat) (m : Merging α) : Except ε (List α × Nat) :=
  if m.isOver mirrored then .ok (m.finished mirrored, threshold)
  else mergeWithin mirrored goesFirst (m.xs.length + m.ys.length) (.counting 0 0) threshold m

end Merge

variable (before : α → α → Except ε Bool)

/-- Two lists merged from their starts. The second one gives the first item. -/
def mergeForward (threshold : Nat) (xs ys : List α) : Except ε (List α × Nat) :=
  mergeAfter false before threshold (Merging.takeY 1 ⟨[], xs, ys⟩)

/-- Two lists merged from their ends. The first one gives the last item. -/
def mergeBackward (threshold : Nat) (xs ys : List α) : Except ε (List α × Nat) := do
  let (merged, threshold) ← mergeAfter true (fun y x => return !(← before y x)) threshold
    (Merging.takeX 1 ⟨[], xs.reverse, ys.reverse⟩)
  return (merged.reverse, threshold)

/-- Two arranged lists as one, and the threshold after that. What goes before the second list and
what goes behind the first one is left aside. -/
def merge (threshold : Nat) (xs ys : List α) : Except ε (List α × Nat) :=
  match ys with
  | [] => .ok (xs, threshold)
  | y :: _ => do
    let front ← leap false (fun x => return !(← before y x)) xs
    match (xs.drop front).getLast? with
    | none => return (xs ++ ys, threshold)
    | some x =>
      let back ← leap true (fun y => return !(← before y x)) ys.reverse
      let inner := ys.length - back
      if inner = 0 then return (xs ++ ys, threshold)
      let (merged, threshold) ←
        if (xs.drop front).length ≤ inner then
          mergeForward before threshold (xs.drop front) (ys.take inner)
        else mergeBackward before threshold (xs.drop front) (ys.take inner)
      return (xs.take front ++ merged ++ ys.drop inner, threshold)

end BlockDiagram.Arrangement
