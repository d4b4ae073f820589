/-!
# Sets of code points

A Unicode property is a list of closed ranges of code points. The ranges of a table lie in
ascending order and do not touch, so a look-up could stop early; membership does not depend on
it.
-/

namespace BlockDiagram.Text

/-- Closed ranges of code points. -/
abbrev Ranges := List (Nat × Nat)

namespace Ranges

/-- Whether a code point lies in one of the ranges. -/
def has (ranges : Ranges) (code : Nat) : Bool :=
  ranges.any fun range => Nat.ble range.1 code && Nat.ble code range.2

theorem has_iff {ranges : Ranges} {code : Nat} :
    ranges.has code = true ↔ ∃ range ∈ ranges, range.1 ≤ code ∧ code ≤ range.2 := by
  simp [has, List.any_eq_true]

end Ranges

end BlockDiagram.Text
