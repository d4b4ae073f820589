/-!
# Leaps

How many items at the start of a list pass a test, where all items before one that passes pass and
all behind one that fails fail. A leap asks the first item, then goes on in strides of doubling
length, and halves what is left between the last two strides. On any other list the number depends
on which items are asked, and so it does for the failure of a test that may fail; therefore the
items that are asked are part of the rule.

* `Arrangement.halved`: the number, found by halving.
* `Arrangement.leap`: the number, found by leaping.
-/

namespace BlockDiagram.Arrangement

variable {α ε : Type} (mirrored : Bool) (passes : α → Except ε Bool)

/-- Which item of a list is asked first in halving. Of two middle items it is the second one, and in
a mirrored list the first one. -/
def middle (length : Nat) : Nat := if mirrored then (length - 1) / 2 else length / 2

/-- How many items at the start of a list pass, found by halving. -/
def halved (items : List α) : Except ε Nat :=
  match _h : items.drop (middle mirrored items.length) with
  | [] => .ok 0
  | asked :: rest => do
    if ← passes asked then
      return middle mirrored items.length + 1 + (← halved rest)
    halved (items.take (middle mirrored items.length))
termination_by items.length
decreasing_by
  all_goals
    have := congrArg List.length _h
    simp only [List.length_drop, List.length_cons, List.length_take] at *
    omega

/-- How many items at the start of a list pass, found in strides of doubling length; the first one
passes passed some items. -/
def strides (passed : Nat) (items : List α) : Except ε Nat :=
  match _h : items.drop passed with
  | [] => halved mirrored passes items
  | asked :: rest => do
    if ← passes asked then return passed + 1 + (← strides (2 * passed + 1) rest)
    halved mirrored passes (items.take passed)
termination_by items.length
decreasing_by
  have := congrArg List.length _h
  simp only [List.length_drop, List.length_cons] at *
  omega

/-- How many items at the start of a list pass, found by leaping. -/
def leap : List α → Except ε Nat
  | [] => .ok 0
  | first :: rest => do
    if ← passes first then return 1 + (← strides mirrored passes 0 rest)
    return 0

end BlockDiagram.Arrangement
