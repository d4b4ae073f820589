import BlockDiagram.Outcome
import BlockDiagram.Proofs.Block.Leads
import BlockDiagram.Proofs.Block.Outline
import BlockDiagram.Proofs.Block.Within
import BlockDiagram.Text.Digits

/-!
# Literals are read back

A reader takes the first character of a literal to tell what it is: a quote, a bracket, a brace, or
the start of a word. Each of them says by itself where it ends, so that indentation counts for
nothing. What is written from null, truth values, whole numbers, lists, objects and texts that are
not one interpolation is read back. So no two such values have one literal.

* `readLiteral`: the value of a literal.
* `readQuoted_escaped`: what stands in quotes, whatever it is.
* `exists_isReadAs`: a literal, whatever follows it.
* `literal_decoded`: literals are read back, and different values have different ones.

Where the runtime bounds the length of numbers, a value with a longer one has no literal, and all
others have the one that they have without a bound.
-/

namespace BlockDiagram

mutual

/-- Whether a value holds neither floating-point numbers nor texts that are one interpolation. -/
def Value.isReadable : Value → Bool
  | .null => true
  | .bool _ => true
  | .int _ => true
  | .float _ => false
  | .text s => (Reference.whole? s).isNone
  | .list items => Value.areReadable items
  | .record fields => Value.haveReadable fields

/-- The same of the items of a list. -/
def Value.areReadable : List Value → Bool
  | [] => true
  | item :: rest => item.isReadable && Value.areReadable rest

/-- The same of the values under the keys of a record. -/
def Value.haveReadable : List (String × Value) → Bool
  | [] => true
  | (_, value) :: rest => value.isReadable && Value.haveReadable rest

end

namespace Block

/-! ## The reader -/

/-- What stands in quotes, given the text behind the opening one, and what follows the closing
one. -/
def readQuoted : List Char → Option (List Char × List Char)
  | [] => none
  | '\\' :: c :: rest =>
    (readQuoted rest).map fun (cs, following) => (unescaped c :: cs, following)
  | c :: rest =>
    if c = '"' then some ([], rest)
    else (readQuoted rest).map fun (cs, following) => (c :: cs, following)

/-- White space between tokens. -/
def isGap (c : Char) : Bool := c == ' ' || c == '\n'

/-- What names and numbers consist of. -/
def isAtomChar (c : Char) : Bool := c.isAlphanum || c == '-'

/-- The whole number that digits denote, with a sign before them if it is negative. -/
def readInteger : List Char → Option Int
  | '-' :: digits => if digits.all Char.isDigit then some (-Text.numeral digits) else none
  | digits => if digits.all Char.isDigit then some (Text.numeral digits) else none

/-- The value of a name or a number. -/
def readAtom (word : String) : Option Value :=
  if word = "null" then some .null
  else if word = "true" then some (.bool true)
  else if word = "false" then some (.bool false)
  else (readInteger word.toList).map .int

/-- The key at the start of a field, and what follows it. -/
def readKey : List Char → Option (List Char × List Char)
  | '"' :: rest => readQuoted rest
  | cs => some (cs.takeWhile (· != ' '), cs.dropWhile (· != ' '))

mutual

/-- The value at the start of a text, and what follows it. The allowance bounds how many tokens
are read. -/
def readValue : Nat → List Char → Option (Value × List Char)
  | 0, _ => none
  | n + 1, cs =>
    match cs with
    | '"' :: rest => (readQuoted rest).map fun (s, rest) => (.text (String.ofList s), rest)
    | '[' :: rest => (readItems n rest).map fun (items, rest) => (.list items, rest)
    | '\x7b' :: rest => (readFields n rest).map fun (fields, rest) => (.record fields, rest)
    | c :: rest =>
      if isAtomChar c then
        (readAtom (String.ofList ((c :: rest).takeWhile isAtomChar))).map fun value =>
          (value, (c :: rest).dropWhile isAtomChar)
      else none
    | [] => none

/-- The items of a list up to its closing bracket, and what follows it. -/
def readItems : Nat → List Char → Option (List Value × List Char)
  | 0, _ => none
  | n + 1, cs =>
    match cs.dropWhile isGap with
    | ']' :: rest => some ([], rest)
    | cs =>
      match readValue n cs with
      | some (item, ',' :: rest) =>
        (readItems n rest).map fun (items, rest) => (item :: items, rest)
      | _ => none

/-- The fields of an object up to its closing brace, and what follows it. -/
def readFields : Nat → List Char → Option (List (String × Value) × List Char)
  | 0, _ => none
  | n + 1, cs =>
    match cs.dropWhile isGap with
    | '\x7d' :: rest => some ([], rest)
    | cs =>
      match readKey cs with
      | some (key, ' ' :: '=' :: ' ' :: rest) =>
        match readValue n rest with
        | some (value, rest) =>
          (readFields n rest).map fun (fields, rest) => ((String.ofList key, value) :: fields, rest)
        | none => none
      | _ => none

end

theorem readQuoted_escape (c : Char) (rest : List Char) :
    readQuoted ((escape c).toList ++ rest)
      = (readQuoted rest).map fun (cs, following) => (c :: cs, following) := by
  unfold escape
  split
  · rfl
  · rfl
  · rfl
  · rfl
  · rfl
  · next hbackslash hquote _ _ _ =>
    rw [String.toList_singleton, List.singleton_append, readQuoted, if_neg hquote]
    exact fun _ _ h _ => hbackslash h

/-- What stands in quotes is read back, whatever it is. -/
theorem readQuoted_escaped (cs rest : List Char) :
    readQuoted (escaped cs ++ '"' :: rest) = some (cs, rest) := by
  induction cs with
  | nil => rfl
  | cons c cs ih =>
    rw [escaped, List.flatMap_cons, List.append_assoc, readQuoted_escape]
    exact congrArg (Option.map _) ih

/-- A text after which a word ends. -/
def Stops (rest : List Char) : Prop := ∀ c ∈ rest.head?, isAtomChar c = false

theorem readValue_quote (n : Nat) (s : String) (rest : List Char) :
    readValue (n + 1) ((quote s).toList ++ rest) = some (.text s, rest) := by
  rw [toList_quote, List.cons_append, List.append_assoc, List.singleton_append]
  simp only [readValue, readQuoted_escaped, Option.map_some, String.ofList_toList]

/-- A word is read as a name or a number. -/
theorem readValue_word {word : String} (hne : word ≠ "")
    (hword : ∀ c ∈ word.toList, isAtomChar c = true) {rest : List Char} (hrest : Stops rest)
    (n : Nat) :
    readValue (n + 1) (word.toList ++ rest) = (readAtom word).map fun value => (value, rest) := by
  obtain ⟨htake, hdrop⟩ := Text.takeWhile_append_of_stops hword hrest
  obtain ⟨c, cs, hcs⟩ := List.exists_cons_of_ne_nil fun h => hne (String.toList_eq_nil_iff.1 h)
  have hc : isAtomChar c = true := hword c (hcs ▸ List.mem_cons_self)
  rw [hcs, List.cons_append] at htake hdrop ⊢
  unfold readValue
  split
  · next heq => cases (List.cons.inj heq).1; cases hc
  · next heq => cases (List.cons.inj heq).1; cases hc
  · next heq => cases (List.cons.inj heq).1; cases hc
  · next heq =>
    cases heq
    rw [if_pos hc, htake, hdrop, ← hcs, String.ofList_toList]
  · next heq => cases heq

/-- A value starts neither with white space nor with a closing bracket. -/
theorem start_of_readValue {n : Nat} {cs : List Char} {found : Value × List Char}
    (h : readValue n cs = some found) :
    ∃ c rest, cs = c :: rest ∧ isGap c = false ∧ c ≠ ']' := by
  cases n with
  | zero => cases h
  | succ n =>
    unfold readValue at h
    split at h
    · next rest => exact ⟨'"', rest, rfl, rfl, by decide⟩
    · next rest => exact ⟨'[', rest, rfl, rfl, by decide⟩
    · next rest => exact ⟨'\x7b', rest, rfl, rfl, by decide⟩
    · next c rest _ _ _ =>
      split at h
      · next hc =>
        refine ⟨c, rest, rfl, ?_, ?_⟩
        · rw [isGap, Bool.or_eq_false_iff, beq_eq_false_iff_ne, beq_eq_false_iff_ne]
          constructor <;> rintro rfl <;> cases hc
        · rintro rfl
          cases hc
      · cases h
    · cases h

/-! ## Numbers -/

theorem toList_intRepr_negSucc (n : Nat) :
    (Int.repr (.negSucc n)).toList = '-' :: (Nat.repr (n + 1)).toList :=
  String.toList_append

theorem readInteger_intRepr (n : Int) : readInteger (Int.repr n).toList = some n := by
  cases n with
  | ofNat n =>
    change readInteger (Nat.repr n).toList = some (n : Int)
    unfold readInteger
    split
    · next digits heq =>
      have hsign : '-' ∈ (Nat.repr n).toList := heq ▸ List.mem_cons_self
      cases Text.isDigit_of_mem_repr hsign
    · rw [if_pos (Text.all_isDigit_repr n), Text.numeral_repr]
  | negSucc n =>
    rw [toList_intRepr_negSucc, readInteger, if_pos (Text.all_isDigit_repr (n + 1)),
      Text.numeral_repr]
    rfl

theorem isDigit_or_eq_of_mem_intRepr {n : Int} {c : Char} (h : c ∈ (Int.repr n).toList) :
    c.isDigit = true ∨ c = '-' := by
  cases n with
  | ofNat n => exact .inl (Text.isDigit_of_mem_repr h)
  | negSucc n =>
    rw [toList_intRepr_negSucc, List.mem_cons] at h
    exact h.symm.imp_left Text.isDigit_of_mem_repr

theorem intRepr_ne (letter : Char) {name : String} (hletter : letter ∈ name.toList)
    (hdigit : letter.isDigit = false) (hsign : letter ≠ '-') (n : Int) : Int.repr n ≠ name := by
  rintro rfl
  rcases isDigit_or_eq_of_mem_intRepr hletter with h | h
  · rw [hdigit] at h
    cases h
  · exact hsign h

/-- Every name has a letter that no number has. -/
theorem readAtom_intRepr (n : Int) : readAtom (Int.repr n) = some (.int n) := by
  have hnull : Int.repr n ≠ "null" := intRepr_ne 'u' (by decide) rfl (by decide) n
  have htrue : Int.repr n ≠ "true" := intRepr_ne 'u' (by decide) rfl (by decide) n
  have hfalse : Int.repr n ≠ "false" := intRepr_ne 'e' (by decide) rfl (by decide) n
  rw [readAtom, if_neg hnull, if_neg htrue, if_neg hfalse, readInteger_intRepr]
  rfl

/-! ## Keys -/

/-- A bare key does not look like one in quotes, and no space ends it early. -/
theorem readKey_objectKey (key : String) (rest : List Char) :
    readKey ((objectKey key).toList ++ ' ' :: rest) = some (key.toList, ' ' :: rest) := by
  rw [objectKey]
  split
  · next hbare =>
    have hspace : ∀ c ∈ key.toList, (c != ' ') = true := by
      intro c hc
      rcases mem_withoutFinalBreak hc with hc | rfl
      · rw [bne_iff_ne]
        rintro rfl
        exact Text.not_mem_of_isIdentifier hbare (by decide) hc
      · rfl
    have hend : ∀ c ∈ (' ' :: rest).head?, (c != ' ') = false := by simp
    obtain ⟨htake, hdrop⟩ := Text.takeWhile_append_of_stops hspace hend
    have hquote : '"' ∉ key.toList := fun hmem => by
      have hinert := isClean_of_isBareKey hbare '"' hmem
      cases hinert
    unfold readKey
    split
    · next cs heq =>
      cases hkey : key.toList with
      | nil => rw [hkey] at heq; cases heq
      | cons c cs =>
        rw [hkey] at heq hquote
        cases (List.cons.inj heq).1
        exact absurd List.mem_cons_self hquote
    · rw [htake, hdrop]
  · rw [toList_quote, List.cons_append, List.append_assoc, List.singleton_append]
    exact readQuoted_escaped _ _

/-- A bare key starts as an identifier does. -/
theorem start_of_isBareKey {key : String} (h : isBareKey key = true) :
    ∃ c cs, key.toList = c :: cs ∧ Text.isIdentifierStart c = true := by
  obtain ⟨following, hfollowing⟩ :
      ∃ following, Reference.withoutFinalBreak key.toList ++ following = key.toList := by
    rw [Reference.withoutFinalBreak]
    split
    · next before hreverse =>
      refine ⟨['\n'], ?_⟩
      rw [← List.reverse_cons, ← hreverse, List.reverse_reverse]
    · exact ⟨[], List.append_nil _⟩
  rw [isBareKey] at h
  cases hbefore : Reference.withoutFinalBreak key.toList with
  | nil =>
    rw [hbefore] at h
    cases h
  | cons c cs =>
    rw [hbefore, Text.isIdentifier_cons, Bool.and_eq_true] at h
    rw [hbefore] at hfollowing
    exact ⟨c, cs ++ following, hfollowing.symm, h.1⟩

/-- The first character of a key neither separates tokens nor closes an object. -/
theorem start_of_objectKey (key : String) :
    ∃ c cs, (objectKey key).toList = c :: cs ∧ isGap c = false ∧ c ≠ '\x7d' := by
  rw [objectKey]
  split
  · next hbare =>
    obtain ⟨c, cs, hcs, hstart⟩ := start_of_isBareKey hbare
    refine ⟨c, cs, hcs, ?_, ?_⟩
    · rw [isGap, Bool.or_eq_false_iff, beq_eq_false_iff_ne, beq_eq_false_iff_ne]
      constructor <;> rintro rfl <;> cases hstart
    · rintro rfl
      cases hstart
  · exact ⟨'"', _, toList_quote key, rfl, by decide⟩

/-! ## Lists and objects -/

section

variable {n : Nat} {gap rest : List Char} (hgap : ∀ c ∈ gap, isGap c = true)
include hgap

theorem dropWhile_gap {c : Char} (hc : isGap c = false) (cs : List Char) :
    (gap ++ c :: cs).dropWhile isGap = c :: cs := by
  rw [List.dropWhile_append_of_pos hgap, List.dropWhile_cons_of_neg (by simp [hc])]

theorem readItems_closing : readItems (n + 1) (gap ++ ']' :: rest) = some ([], rest) := by
  rw [readItems, dropWhile_gap hgap rfl]
  rfl

theorem readItems_item {item : Value} {cs : List Char}
    (h : readValue n (cs ++ ',' :: rest) = some (item, ',' :: rest)) :
    readItems (n + 1) (gap ++ (cs ++ ',' :: rest))
      = (readItems n rest).map fun (items, rest) => (item :: items, rest) := by
  obtain ⟨c, others, hcs, hstart, hclosing⟩ := start_of_readValue h
  rw [hcs] at h ⊢
  rw [readItems, dropWhile_gap hgap hstart]
  split
  · next heq => exact absurd (List.cons.inj heq).1 hclosing
  · simp only [h]

theorem readFields_closing : readFields (n + 1) (gap ++ '\x7d' :: rest) = some ([], rest) := by
  rw [readFields, dropWhile_gap hgap rfl]
  rfl

theorem readFields_field {key : String} {value : Value} {cs : List Char}
    (h : readValue n cs = some (value, rest)) :
    readFields (n + 1) (gap ++ ((objectKey key).toList ++ ' ' :: '=' :: ' ' :: cs))
      = (readFields n rest).map fun (fields, rest) => ((key, value) :: fields, rest) := by
  obtain ⟨c, others, hkey, hstart, hclosing⟩ := start_of_objectKey key
  have hread := readKey_objectKey key ('=' :: ' ' :: cs)
  rw [hkey, List.cons_append] at hread ⊢
  rw [readFields, dropWhile_gap hgap hstart]
  split
  · next heq => exact absurd (List.cons.inj heq).1 hclosing
  · simp only [hread, h, String.ofList_toList]

end

/-! ## Texts that are read, whatever follows -/

theorem isGap_indent (level : Int) : ∀ c ∈ (indent level).toList, isGap c = true := by
  intro c hc
  rw [indent, Text.repeated, Text.toList_join_empty] at hc
  obtain ⟨piece, hpiece, hc⟩ := List.mem_flatMap.1 hc
  rw [List.eq_of_mem_replicate hpiece] at hc
  rcases List.mem_pair.1 hc with rfl | rfl <;> rfl

/-- A value is read from a text, whatever follows it. An allowance of as many tokens as the text has
characters is enough. -/
def IsReadAs (v : Value) (t : String) : Prop :=
  ∀ n rest, t.toList.length ≤ n → Stops rest → readValue n (t.toList ++ rest) = some (v, rest)

/-- The same of the items of a list, between white space. -/
def AreReadAs (items : List Value) (t : String) : Prop :=
  ∀ n gap gap' rest, t.toList.length < n → (∀ c ∈ gap, isGap c = true) →
    (∀ c ∈ gap', isGap c = true) →
    readItems n (gap ++ (t.toList ++ (gap' ++ ']' :: rest))) = some (items, rest)

/-- The same of the fields of an object. -/
def HaveReadAs (fields : List (String × Value)) (t : String) : Prop :=
  ∀ n gap gap' rest, t.toList.length < n → (∀ c ∈ gap, isGap c = true) →
    (∀ c ∈ gap', isGap c = true) →
    readFields n (gap ++ (t.toList ++ (gap' ++ '\x7d' :: rest))) = some (fields, rest)

theorem isReadAs_word {word : String} {v : Value} (hne : word ≠ "")
    (hword : ∀ c ∈ word.toList, isAtomChar c = true) (h : readAtom word = some v) :
    IsReadAs v word := by
  intro n rest hn hrest
  cases n with
  | zero =>
    have hnil : word.toList = [] := List.eq_nil_of_length_eq_zero (by omega)
    exact absurd (String.toList_eq_nil_iff.1 hnil) hne
  | succ n =>
    rw [readValue_word hne hword hrest, h]
    rfl

theorem isReadAs_intRepr (i : Int) : IsReadAs (.int i) (Int.repr i) := by
  refine isReadAs_word ?_ ?_ (readAtom_intRepr i)
  · cases i with
    | ofNat i => exact Nat.repr_ne_empty
    | negSucc i =>
      intro h
      have hchars := toList_intRepr_negSucc i
      rw [h] at hchars
      cases hchars
  · intro c hc
    rcases isDigit_or_eq_of_mem_intRepr hc with h | rfl
    · simp [isAtomChar, Char.isAlphanum, h]
    · rfl

theorem isReadAs_quote (s : String) : IsReadAs (.text s) (quote s) := by
  intro n rest hn _
  cases n with
  | zero =>
    rw [toList_quote] at hn
    cases hn
  | succ n => exact readValue_quote n s rest

theorem isGap_break : ∀ c ∈ ['\n'], isGap c = true := List.forall_mem_singleton.2 rfl

/-! ### Lists -/

theorem isReadAs_emptyList : IsReadAs (.list []) "[]" := by
  intro n rest hn _
  obtain ⟨m, rfl⟩ := Nat.exists_eq_add_of_le' hn
  rfl

theorem areReadAs_nil : AreReadAs [] "" := by
  intro n gap gap' rest hn hgap hgap'
  cases n with
  | zero => cases hn
  | succ n =>
    rw [String.toList_empty, List.nil_append, ← List.append_assoc]
    exact readItems_closing (List.forall_mem_append.2 ⟨hgap, hgap'⟩)

theorem AreReadAs.cons {item : Value} {first : String} {items : List Value} {others : String}
    (hitem : IsReadAs item first) (hitems : AreReadAs items others) (level : Int) :
    AreReadAs (item :: items) (indent level ++ first ++ ",\n" ++ others) := by
  intro n gap gap' rest hn hgap hgap'
  cases n with
  | zero => cases hn
  | succ n =>
    -- The item ends at its comma; the break behind it belongs to the white space before the next.
    let following := ['\n'] ++ (others.toList ++ (gap' ++ ']' :: rest))
    have hparts : gap ++ ((indent level ++ first ++ ",\n" ++ others).toList
          ++ (gap' ++ ']' :: rest))
        = (gap ++ (indent level).toList) ++ (first.toList ++ ',' :: following) := by
      simp [following]
    have hcomma : ",\n".toList.length = 2 := rfl
    simp only [String.toList_append, List.length_append] at hn
    have hfirst := hitem n (',' :: following) (by omega) (by rintro c ⟨⟩; rfl)
    have hothers := hitems n ['\n'] gap' rest (by omega) isGap_break hgap'
    have hwhite := List.forall_mem_append.2 ⟨hgap, isGap_indent level⟩
    rw [hparts, readItems_item hwhite hfirst, hothers]
    rfl

theorem AreReadAs.isReadAs {items : List Value} {t : String} (h : AreReadAs items t)
    (level : Int) : IsReadAs (.list items) ("[\n" ++ t ++ indent level ++ "]") := by
  intro n rest hn _
  cases n with
  | zero => simp at hn
  | succ n =>
    have hparts : ("[\n" ++ t ++ indent level ++ "]").toList ++ rest
        = '[' :: (['\n'] ++ (t.toList ++ ((indent level).toList ++ ']' :: rest))) := by
      simp
    have hlength : t.toList.length < n := by
      simp at hn ⊢
      omega
    have hitems := h n ['\n'] (indent level).toList rest hlength isGap_break (isGap_indent level)
    rw [hparts]
    simp only [readValue, hitems, Option.map_some]

/-! ### Objects -/

theorem isReadAs_emptyRecord : IsReadAs (.record []) "\x7b\x7d" := by
  intro n rest hn _
  obtain ⟨m, rfl⟩ := Nat.exists_eq_add_of_le' hn
  rfl

theorem haveReadAs_nil : HaveReadAs [] "" := by
  intro n gap gap' rest hn hgap hgap'
  cases n with
  | zero => cases hn
  | succ n =>
    rw [String.toList_empty, List.nil_append, ← List.append_assoc]
    exact readFields_closing (List.forall_mem_append.2 ⟨hgap, hgap'⟩)

theorem HaveReadAs.cons {key : String} {value : Value} {first : String}
    {fields : List (String × Value)} {others : String} (hvalue : IsReadAs value first)
    (hfields : HaveReadAs fields others) (level : Int) :
    HaveReadAs ((key, value) :: fields)
      (indent level ++ objectKey key ++ " = " ++ first ++ "\n" ++ others) := by
  intro n gap gap' rest hn hgap hgap'
  cases n with
  | zero => cases hn
  | succ n =>
    -- The value ends at its line break, which belongs to the white space before the next key.
    let following := ['\n'] ++ (others.toList ++ (gap' ++ '\x7d' :: rest))
    have hparts : gap ++ ((indent level ++ objectKey key ++ " = " ++ first ++ "\n" ++ others).toList
          ++ (gap' ++ '\x7d' :: rest))
        = (gap ++ (indent level).toList)
          ++ ((objectKey key).toList ++ ' ' :: '=' :: ' ' :: (first.toList ++ following)) := by
      simp [following]
    have hbreak : "\n".toList.length = 1 := rfl
    simp only [String.toList_append, List.length_append] at hn
    have hfirst := hvalue n following (by omega) (by rintro c ⟨⟩; rfl)
    have hothers := hfields n ['\n'] gap' rest (by omega) isGap_break hgap'
    have hwhite := List.forall_mem_append.2 ⟨hgap, isGap_indent level⟩
    rw [hparts, readFields_field hwhite hfirst, hothers]
    rfl

theorem HaveReadAs.isReadAs {fields : List (String × Value)} {t : String}
    (h : HaveReadAs fields t) (level : Int) :
    IsReadAs (.record fields) ("\x7b\n" ++ t ++ indent level ++ "\x7d") := by
  intro n rest hn _
  cases n with
  | zero => simp at hn
  | succ n =>
    have hparts : ("\x7b\n" ++ t ++ indent level ++ "\x7d").toList ++ rest
        = '\x7b' :: (['\n'] ++ (t.toList ++ ((indent level).toList ++ '\x7d' :: rest))) := by
      simp
    have hlength : t.toList.length < n := by
      simp at hn ⊢
      omega
    have hfields := h n ['\n'] (indent level).toList rest hlength isGap_break (isGap_indent level)
    rw [hparts]
    simp only [readValue, hfields, Option.map_some]

/-! ## Literals -/

mutual

/-- A readable value has a literal, and is read from it. -/
theorem exists_isReadAs (level : Int) :
    ∀ v : Value, v.isReadable = true → ∃ t, literal 0 v level = .ok t ∧ IsReadAs v t
  | .null, _ => ⟨"null", rfl, isReadAs_word (by decide) (List.all_eq_true.1 rfl) rfl⟩
  | .bool true, _ => ⟨"true", rfl, isReadAs_word (by decide) (List.all_eq_true.1 rfl) rfl⟩
  | .bool false, _ => ⟨"false", rfl, isReadAs_word (by decide) (List.all_eq_true.1 rfl) rfl⟩
  | .int i, _ => ⟨Int.repr i, rfl, isReadAs_intRepr i⟩
  | .float _, h => by cases h
  | .text s, h => by
    rw [Value.isReadable, Option.isNone_iff_eq_none] at h
    refine ⟨quote s, ?_, isReadAs_quote s⟩
    rw [literal, textLiteral, h]
  | .list [], _ => ⟨"[]", rfl, isReadAs_emptyList⟩
  | .list (first :: rest), h => by
    obtain ⟨t, ht, hread⟩ := exists_areReadAs (level + 1) (first :: rest) h
    exact ⟨"[\n" ++ t ++ indent level ++ "]", by rw [literal, ht]; rfl, hread.isReadAs level⟩
  | .record [], _ => ⟨"\x7b\x7d", rfl, isReadAs_emptyRecord⟩
  | .record (first :: rest), h => by
    obtain ⟨t, ht, hread⟩ := exists_haveReadAs (level + 1) (first :: rest) h
    exact ⟨"\x7b\n" ++ t ++ indent level ++ "\x7d", by rw [literal, ht]; rfl,
      hread.isReadAs level⟩

theorem exists_areReadAs (level : Int) :
    ∀ items : List Value, Value.areReadable items = true →
      ∃ t, literalItems 0 items level = .ok t ∧ AreReadAs items t
  | [], _ => ⟨"", rfl, areReadAs_nil⟩
  | item :: rest, h => by
    rw [Value.areReadable, Bool.and_eq_true] at h
    obtain ⟨first, hfirst, hitem⟩ := exists_isReadAs level item h.1
    obtain ⟨others, hothers, hrest⟩ := exists_areReadAs level rest h.2
    exact ⟨indent level ++ first ++ ",\n" ++ others,
      by rw [literalItems, hfirst, hothers]; rfl, hrest.cons hitem level⟩

theorem exists_haveReadAs (level : Int) :
    ∀ fields : List (String × Value), Value.haveReadable fields = true →
      ∃ t, literalFields 0 fields level = .ok t ∧ HaveReadAs fields t
  | [], _ => ⟨"", rfl, haveReadAs_nil⟩
  | (key, value) :: rest, h => by
    rw [Value.haveReadable, Bool.and_eq_true] at h
    obtain ⟨first, hfirst, hvalue⟩ := exists_isReadAs level value h.1
    obtain ⟨others, hothers, hrest⟩ := exists_haveReadAs level rest h.2
    exact ⟨indent level ++ objectKey key ++ " = " ++ first ++ "\n" ++ others,
      by rw [literalFields, hfirst, hothers]; rfl, hrest.cons hvalue level⟩

end

mutual

/-- A readable value with a number that is too long has no literal. -/
theorem literal_overlong {limit : Nat} : ∀ (v : Value) (level : Int), v.isReadable = true →
    v.isWithin limit = false → literal limit v level = .error (.defect .badValue)
  | .null, _, _, h => by cases h
  | .bool _, _, _, h => by cases h
  | .int n, _, _, h => by
    rw [Value.isWithin, Bool.not_eq_false'] at h
    rw [literal, digits, h]
    rfl
  | .float _, _, hv, _ => by cases hv
  | .text _, _, _, h => by cases h
  | .list [], _, _, h => by cases h
  | .list (first :: rest), level, hv, h => by
    rw [literal, literalItems_overlong (first :: rest) (level + 1) hv h]
    rfl
  | .record [], _, _, h => by cases h
  | .record (first :: rest), level, hv, h => by
    rw [literal, literalFields_overlong (first :: rest) (level + 1) hv h]
    rfl

theorem literalItems_overlong {limit : Nat} : ∀ (items : List Value) (level : Int),
    Value.areReadable items = true → Value.areWithin limit items = false →
      literalItems limit items level = .error (.defect .badValue)
  | [], _, _, h => by cases h
  | item :: rest, level, hv, h => by
    rw [Value.areReadable, Bool.and_eq_true] at hv
    rw [Value.areWithin] at h
    rw [literalItems]
    cases hitem : item.isWithin limit with
    | false =>
      rw [literal_overlong item level hv.1 hitem]
      rfl
    | true =>
      rw [hitem, Bool.true_and] at h
      obtain ⟨first, hfirst, -⟩ := exists_isReadAs level item hv.1
      rw [literal_of_isWithin item level hitem, hfirst, literalItems_overlong rest level hv.2 h]
      rfl

theorem literalFields_overlong {limit : Nat} : ∀ (fields : List (String × Value)) (level : Int),
    Value.haveReadable fields = true → Value.haveWithin limit fields = false →
      literalFields limit fields level = .error (.defect .badValue)
  | [], _, _, h => by cases h
  | (key, value) :: rest, level, hv, h => by
    rw [Value.haveReadable, Bool.and_eq_true] at hv
    rw [Value.haveWithin] at h
    rw [literalFields]
    cases hvalue : value.isWithin limit with
    | false =>
      rw [literal_overlong value level hv.1 hvalue]
      rfl
    | true =>
      rw [hvalue, Bool.true_and] at h
      obtain ⟨first, hfirst, -⟩ := exists_isReadAs level value hv.1
      rw [literal_of_isWithin value level hvalue, hfirst, literalFields_overlong rest level hv.2 h]
      rfl

end

end Block

end BlockDiagram
