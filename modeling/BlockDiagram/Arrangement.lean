import BlockDiagram.Arrangement.Merge

/-!
# Arranging by a comparison that may fail

Where some items have no order it shows which two are compared first, so the rule fixes every
comparison. A list falls into runs, which rise or fall as far as they can; a falling run is
reversed, and a short one takes in further items, each put to its place by halving, until it has its
least length. Neighbouring runs are merged so that a run is merged the sooner, the deeper the list
has to be cut in halves, in halves of halves and so on, until a cut comes between its middle and
that of its neighbour; what is left at the end is merged from the end on.

Items that have an order come out in it, and equal ones keep theirs.

* `Arrangement.ofList`: the items of a list, arranged.
-/

namespace BlockDiagram.Arrangement

variable {α ε : Type} (before : α → α → Except ε Bool)

/-! ## Runs -/

/-- Arranged items with one more item in its place, after its equals. -/
def placed (item : α) (arranged : List α) : Except ε (List α) := do
  let count ← halved false (fun other => return !(← before item other)) arranged
  return arranged.take count ++ item :: arranged.drop count

/-- How many items after one still belong to its run. -/
def runFrom (falling : Bool) (last : α) : List α → Except ε Nat
  | [] => .ok 0
  | next :: rest => do
    if (← before next last) != falling then return 0
    return (← runFrom falling next rest) + 1

/-- Whether the run at the start of a list falls, and how many items after the first one belong to
it. -/
def run (first : α) : List α → Except ε (Bool × Nat)
  | [] => .ok (false, 0)
  | second :: rest => do
    let falling ← before second first
    return (falling, (← runFrom before falling second rest) + 1)

/-- The run at the start of a list with further items up to a least length, arranged, and how many
items after the first one are in it. -/
def longRun (least : Nat) (first : α) (others : List α) : Except ε (List α × Nat) := do
  let (falling, count) ← run before first others
  let found := first :: others.take count
  let missing := least - (count + 1)
  let filled ← ((others.drop count).take missing).foldlM
    (fun arranged item => placed before item arranged) (if falling then found.reverse else found)
  return (filled, count + missing)

/-- The least length of a run in a list of some length: its six highest binary digits, rounded up
where lower ones are set. -/
def leastRun (length : Nat) (remainder : Nat) : Nat :=
  if length < 64 then length + remainder else leastRun (length / 2) (max remainder (length % 2))
termination_by length

/-! ## Merging runs -/

/-- A run that waits to be merged: its place, its items, and the depth of the cut behind it. -/
structure Waiting (α : Type) where
  start : Nat
  items : List α
  depth : Nat
deriving Repr

/-- The depth of the cut between two neighbouring runs of a list: how often the list is cut in
halves until their middles fall apart. -/
def depth (length start first second : Nat) : Nat :=
  let middle := 2 * start + first
  let other := middle + first + second
  ((List.range (length + 1)).find? fun n =>
    (middle <<< n) / length != (other <<< n) / length).getD length

/-- A run merged with those before it whose cuts are deeper than a new one, those that still wait,
and the threshold. -/
def settled (cut threshold : Nat) (last : Waiting α) :
    List (Waiting α) → Except ε (Waiting α × List (Waiting α) × Nat)
  | [] => .ok (last, [], threshold)
  | previous :: waiting => do
    if previous.depth ≤ cut then return (last, previous :: waiting, threshold)
    let (items, threshold) ← merge before threshold previous.items last.items
    settled cut threshold ⟨previous.start, items, previous.depth⟩ waiting

/-- The runs that wait, the last one first, with a new run and the threshold. -/
def pushed (length start : Nat) (items : List α) (threshold : Nat) :
    List (Waiting α) → Except ε (List (Waiting α) × Nat)
  | [] => .ok ([⟨start, items, 0⟩], threshold)
  | last :: waiting => do
    let cut := depth length last.start last.items.length items.length
    let (last, waiting, threshold) ← settled before cut threshold last waiting
    return (⟨start, items, 0⟩ :: { last with depth := cut } :: waiting, threshold)

/-- A run merged with all that wait before it. Of three runs the first two are merged if the first
one is shorter than the last one. -/
def collapsed (threshold : Nat) (last : List α) : List (List α) → Except ε (List α)
  | [] => .ok last
  | [previous] => do return (← merge before threshold previous last).1
  | previous :: third :: waiting => do
    if third.length < last.length then
      let (items, threshold) ← merge before threshold third previous
      collapsed threshold last (items :: waiting)
    else
      let (items, threshold) ← merge before threshold previous last
      collapsed threshold items (third :: waiting)
termination_by waiting => waiting.length

/-- The last items of a list, arranged together with the runs before them. -/
def arrangedAfter (length threshold : Nat) (waiting : List (Waiting α)) (items : List α) :
    Except ε (List α) :=
  match items with
  | [] =>
    match waiting with
    | [] => .ok []
    | last :: others => collapsed before threshold last.items (others.map Waiting.items)
  | first :: others => do
    let (found, count) ← longRun before (leastRun length 0) first others
    let (waiting, threshold) ←
      pushed before length (length - (others.length + 1)) found threshold waiting
    arrangedAfter length threshold waiting (others.drop count)
termination_by items.length
decreasing_by
  simp only [List.length_drop, List.length_cons]
  omega

/-- The items of a list, arranged. -/
def ofList (items : List α) : Except ε (List α) :=
  arrangedAfter before items.length 7 [] items

end BlockDiagram.Arrangement
