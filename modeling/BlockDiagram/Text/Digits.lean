/-!
# Digits

The numbers that decimal and hexadecimal digits denote.

* `repr_inj`: different numbers have different decimal digits.
* `numeral_repr`: decimal digits denote the number that they are written from.
* `numeral_lt`: how large a number of so many digits may be.
-/

namespace BlockDiagram.Text

def hexDigit? (c : Char) : Option Nat :=
  if c.isDigit then some (c.toNat - 48)
  else if 'a' ≤ c ∧ c ≤ 'f' then some (c.toNat - 87)
  else if 'A' ≤ c ∧ c ≤ 'F' then some (c.toNat - 55)
  else none

/-- The number that decimal digits denote. -/
def numeral (digits : List Char) : Nat := digits.foldl (fun n c => 10 * n + (c.toNat - 48)) 0

theorem repr_inj {m n : Nat} : Nat.repr m = Nat.repr n ↔ m = n := by
  constructor
  · intro h
    have digits := congrArg String.toList h
    rw [Nat.toList_repr, Nat.toList_repr] at digits
    have value := congrArg (fun cs => Nat.ofDigitChars 10 cs 0) digits
    simpa only [Nat.ofDigitChars_ten_toDigits] using value
  · rintro rfl
    rfl

theorem isDigit_of_mem_repr {n : Nat} {c : Char} (h : c ∈ (Nat.repr n).toList) :
    c.isDigit = true := by
  rw [Nat.toList_repr] at h
  exact Nat.isDigit_of_mem_toDigits (by decide) (by decide) h

theorem all_isDigit_repr (n : Nat) : (Nat.repr n).toList.all Char.isDigit = true :=
  List.all_eq_true.2 fun _ hc => isDigit_of_mem_repr hc

theorem numeral_repr (n : Nat) : numeral (Nat.repr n).toList = n := by
  rw [Nat.toList_repr]
  exact Nat.ofDigitChars_ten_toDigits

theorem isDigit_lt {c : Char} (h : c.isDigit = true) : c.toNat - 48 < 10 := by
  simp only [Char.isDigit, Bool.and_eq_true, decide_eq_true_eq, UInt32.le_iff_toNat_le] at h
  have htop : c.toNat ≤ 57 := h.2
  omega

/-- Further digits behind those of a number. -/
theorem foldl_numeral_lt {digits : List Char} (h : ∀ c ∈ digits, c.isDigit = true) (start : Nat) :
    digits.foldl (fun n c => 10 * n + (c.toNat - 48)) start
      < (start + 1) * Nat.pow 10 digits.length := by
  induction digits generalizing start with
  | nil => simp
  | cons c digits ih =>
    obtain ⟨hc, hdigits⟩ := List.forall_mem_cons.1 h
    have hdigit := isDigit_lt hc
    have hpow : Nat.pow 10 (digits.length + 1) = Nat.pow 10 digits.length * 10 := rfl
    calc (c :: digits).foldl (fun n c => 10 * n + (c.toNat - 48)) start
        < (10 * start + (c.toNat - 48) + 1) * Nat.pow 10 digits.length := ih hdigits _
      _ ≤ ((start + 1) * 10) * Nat.pow 10 digits.length := Nat.mul_le_mul_right _ (by omega)
      _ = (start + 1) * Nat.pow 10 (c :: digits).length := by
        rw [List.length_cons, hpow, Nat.mul_assoc, Nat.mul_comm 10]

theorem numeral_lt {digits : List Char} (h : ∀ c ∈ digits, c.isDigit = true) :
    numeral digits < Nat.pow 10 digits.length := by
  have hbound := foldl_numeral_lt h 0
  rwa [Nat.zero_add, Nat.one_mul] at hbound

end BlockDiagram.Text
