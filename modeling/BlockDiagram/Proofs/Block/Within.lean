import BlockDiagram.Block.Attribute
import BlockDiagram.Proofs.Json.Reader
import BlockDiagram.Text.Digits

/-!
# Whole numbers within a limit

The runtime bounds how many digits a whole number may have where it is written down, and the reader
of JSON where it is read. A value without longer numbers has the literal that it has without a
limit. So the blocks of a configuration need none: whatever was read from JSON is within the limit
that holds by default.

* `Value.isWithin`: no whole number in a value is longer than a limit.
* `Block.literal_of_isWithin`: the literal of such a value.
* `Json.isWithin_of_document`: what is read is within the limit of reading.
* `Block.literalLine_of_document`: so blocks hold the literals of the default limit.
-/

namespace BlockDiagram

mutual

/-- Whether no whole number in a value has more digits than a limit. -/
def Value.isWithin (limit : Nat) : Value → Bool
  | .null => true
  | .bool _ => true
  | .int n => !Block.isOverlong limit n
  | .float _ => true
  | .text _ => true
  | .list items => Value.areWithin limit items
  | .record fields => Value.haveWithin limit fields

/-- The same of the items of a list. -/
def Value.areWithin (limit : Nat) : List Value → Bool
  | [] => true
  | item :: rest => item.isWithin limit && Value.areWithin limit rest

/-- The same of the values under the keys of a record. -/
def Value.haveWithin (limit : Nat) : List (String × Value) → Bool
  | [] => true
  | (_, value) :: rest => value.isWithin limit && Value.haveWithin limit rest

end

theorem Value.haveWithin_iff {limit : Nat} {fields : List (String × Value)} :
    Value.haveWithin limit fields = true ↔ ∀ field ∈ fields, field.2.isWithin limit = true := by
  induction fields with
  | nil => simp [Value.haveWithin]
  | cons field rest ih => rw [Value.haveWithin, Bool.and_eq_true, ih, List.forall_mem_cons]

/-! ## Literals -/

namespace Block

mutual

theorem literal_of_isWithin {limit : Nat} : ∀ (value : Value) (level : Int),
    value.isWithin limit = true → literal limit value level = literal 0 value level
  | .null, _, _ => rfl
  | .bool _, _, _ => rfl
  | .int n, _, h => by
    rw [Value.isWithin, Bool.not_eq_true'] at h
    rw [literal, digits, h]
    rfl
  | .float _, _, _ => rfl
  | .text _, _, _ => rfl
  | .list [], _, _ => rfl
  | .list (first :: rest), level, h => by
    rw [literal, literal, literalItems_of_areWithin (first :: rest) (level + 1) h]
  | .record [], _, _ => rfl
  | .record (first :: rest), level, h => by
    rw [literal, literal, literalFields_of_haveWithin (first :: rest) (level + 1) h]

theorem literalItems_of_areWithin {limit : Nat} : ∀ (items : List Value) (level : Int),
    Value.areWithin limit items = true → literalItems limit items level = literalItems 0 items level
  | [], _, _ => rfl
  | item :: rest, level, h => by
    rw [Value.areWithin, Bool.and_eq_true] at h
    rw [literalItems, literalItems, literal_of_isWithin item level h.1,
      literalItems_of_areWithin rest level h.2]

theorem literalFields_of_haveWithin {limit : Nat} :
    ∀ (fields : List (String × Value)) (level : Int), Value.haveWithin limit fields = true →
      literalFields limit fields level = literalFields 0 fields level
  | [], _, _ => rfl
  | (key, value) :: rest, level, h => by
    rw [Value.haveWithin, Bool.and_eq_true] at h
    rw [literalFields, literalFields, literal_of_isWithin value level h.1,
      literalFields_of_haveWithin rest level h.2]

end

end Block

/-! ## What is read -/

namespace Json

theorem isDigit_of_wholeDigits? {cs digits rest : List Char}
    (h : wholeDigits? cs = some (digits, rest)) : ∀ c ∈ digits, c.isDigit = true := by
  cases cs with
  | nil => cases h
  | cons c cs =>
    rw [wholeDigits?_cons] at h
    split at h
    · cases h
      exact List.forall_mem_singleton.2 rfl
    · split at h
      · next hdigit =>
        cases h
        exact List.forall_mem_cons.2 ⟨hdigit, List.all_eq_true.1 List.all_takeWhile⟩
      · cases h

theorem isWithin_of_numberOf {negative : Bool} {whole rest : List Char}
    {behind : List Char × List Char} {v : Value} (hwhole : ∀ c ∈ whole, c.isDigit = true)
    (h : numberOf negative whole behind = .ok (v, rest)) : v.isWithin digitLimit = true := by
  obtain ⟨fraction, after⟩ := behind
  unfold numberOf at h
  dsimp only at h
  split at h
  · split at h
    · cases h
    · next hlimit =>
      cases h
      have hpow : ∀ k, whole.length ≤ k → 10 ^ whole.length ≤ Nat.pow 10 k := fun k =>
        Nat.pow_le_pow_right (by decide)
      have hbound : Text.numeral whole < Nat.pow 10 digitLimit :=
        Nat.lt_of_lt_of_le (Text.numeral_lt hwhole)
          (hpow digitLimit (Nat.le_of_not_lt hlimit))
      have hsize : (if negative then -(Text.numeral whole : Int) else Text.numeral whole).natAbs
          = Text.numeral whole := by
        split
        · rw [Int.natAbs_neg, Int.natAbs_natCast]
        · rw [Int.natAbs_natCast]
      rw [Value.isWithin, Bool.not_eq_true', Block.isOverlong, decide_eq_false_iff_not, hsize]
      exact fun hover => absurd hover.2 (Nat.not_le_of_lt hbound)
  · cases h
    rfl

theorem isWithin_of_atom {cs rest : List Char} {v : Value} (h : atom cs = .ok (v, rest)) :
    v.isWithin digitLimit = true := by
  unfold atom at h
  split at h
  · next name found hname =>
    cases h
    have hmem := List.mem_of_find?_eq_some hname
    simp only [names, List.mem_cons, List.not_mem_nil, or_false, Prod.mk.injEq] at hmem
    rcases hmem with ⟨-, rfl⟩ | ⟨-, rfl⟩ | ⟨-, rfl⟩ | ⟨-, rfl⟩ | ⟨-, rfl⟩ | ⟨-, rfl⟩ <;> rfl
  · rw [number_eq] at h
    split at h
    · cases h
    · next hwhole => exact isWithin_of_numberOf (isDigit_of_wholeDigits? hwhole) h

mutual

theorem isWithin_of_value : ∀ (n : Nat) {cs rest : List Char} {v : Value},
    value n cs = .ok (v, rest) → v.isWithin digitLimit = true
  | 0, _, _, _, h => by cases h
  | n + 1, cs, rest, v, h => by
    unfold value at h
    split at h
    · obtain ⟨found, -, h⟩ := Outcome.bind_eq_ok.1 h
      cases h
      rfl
    · split at h
      · cases h
        rfl
      · obtain ⟨found, hfound, h⟩ := Outcome.bind_eq_ok.1 h
        cases h
        exact areWithin_of_items n hfound
    · split at h
      · cases h
        rfl
      · obtain ⟨found, hfound, h⟩ := Outcome.bind_eq_ok.1 h
        cases h
        have hfields := Value.haveWithin_iff.1 (haveWithin_of_fields n hfound)
        exact Value.haveWithin_iff.2 fun field hfield =>
          hfields field (Table.mem_of_mem_ofList hfield)
    · exact isWithin_of_atom h

theorem areWithin_of_items : ∀ (n : Nat) {cs rest : List Char} {found : List Value},
    items n cs = .ok (found, rest) → Value.areWithin digitLimit found = true
  | 0, _, _, _, h => by cases h
  | n + 1, cs, rest, found, h => by
    rw [items] at h
    obtain ⟨first, hfirst, h⟩ := Outcome.bind_eq_ok.1 h
    have hwithin := isWithin_of_value n hfirst
    dsimp only at h
    split at h
    · obtain ⟨others, hothers, h⟩ := Outcome.bind_eq_ok.1 h
      cases h
      rw [Value.areWithin, hwithin, areWithin_of_items n hothers, Bool.and_self]
    · cases h
      rw [Value.areWithin, hwithin]
      rfl
    · cases h

theorem haveWithin_of_fields : ∀ (n : Nat) {cs rest : List Char} {found : List (String × Value)},
    fields n cs = .ok (found, rest) → Value.haveWithin digitLimit found = true
  | 0, _, _, _, h => by cases h
  | n + 1, cs, rest, found, h => by
    obtain ⟨cs', key, behind, left, rfl, hkey, hcolon⟩ := exists_of_fields h
    rw [fields_colon n hkey hcolon] at h
    obtain ⟨first, hfirst, h⟩ := Outcome.bind_eq_ok.1 h
    have hwithin := isWithin_of_value n hfirst
    dsimp only at h
    split at h
    · obtain ⟨others, hothers, h⟩ := Outcome.bind_eq_ok.1 h
      cases h
      rw [Value.haveWithin, hwithin, haveWithin_of_fields n hothers, Bool.and_self]
    · cases h
      rw [Value.haveWithin, hwithin]
      rfl
    · cases h

end

/-- No whole number that was read is longer than the reader allows. -/
theorem isWithin_of_document {cs : List Char} {v : Value} (h : document cs = .ok v) :
    v.isWithin digitLimit = true := by
  obtain ⟨rest, hvalue, -⟩ := exists_of_document h
  exact isWithin_of_value _ hvalue

end Json

/-- What was read stands in a block as it does under the limit that holds by default. -/
theorem Block.literalLine_of_document {cs : List Char} {v : Value}
    (h : Json.document cs = .ok v) (level : Int) :
    literalLine v level = literal Json.digitLimit v level :=
  (literal_of_isWithin v level (Json.isWithin_of_document h)).symm

end BlockDiagram
