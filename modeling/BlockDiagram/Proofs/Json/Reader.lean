import BlockDiagram.Json.Reader
import BlockDiagram.Outcome
import Mathlib.Data.List.Find

/-!
# What follows a value does not matter

Reading a value stops where the value ends, so more text behind it changes nothing but what is left.
Strings, lists and records end by themselves; a number or a name ends before a mark that cannot
belong to it. The allowance for nesting does not matter either, once it is enough.

* `followedBy`: an outcome of reading with more text behind.
* `number_append`, `atom_append`: numbers and names before a mark.
* `string_append`: strings.
* `append_of_value`: values, items and fields, by induction on the allowance.
* `value_record_append`: a record, whatever follows it.
* `exists_of_document`: the value that a whole text is read as.
-/

namespace BlockDiagram.Json

open Text (isTrail isLead)

/-! ## Outcomes -/

/-- An outcome of reading when more text follows what is left. -/
def followedBy {α : Type} (s : List Char) :
    Except Fault (α × List Char) → Except Fault (α × List Char)
  | .ok (v, rest) => .ok (v, rest ++ s)
  | .error (.malformed left) => .error (.malformed (left + s.length))
  | .error .overlong => .error .overlong

/-- The characters that stand between values and around them, and no number or name holds. -/
def isMark (c : Char) : Bool :=
  isSpace c || c == ',' || c == '\x5d' || c == '\x7b' || c == '\x7d'

theorem eq_of_isMark {c : Char} (h : isMark c = true) :
    c ∈ [' ', '\t', '\n', '\r', ',', '\x5d', '\x7b', '\x7d'] := by
  simpa [isMark, isSpace, or_assoc] using h

theorem isDigit_of_isMark {c : Char} (h : isMark c = true) : c.isDigit = false := by
  have hmark := eq_of_isMark h
  simp only [List.mem_cons, List.not_mem_nil, or_false] at hmark
  rcases hmark with rfl | rfl | rfl | rfl | rfl | rfl | rfl | rfl <;> rfl

/-- What no number holds beside its digits is a mark. -/
theorem ne_of_isMark {c d : Char} (h : isMark c = true) (hd : isMark d = false) : c ≠ d := by
  rintro rfl
  rw [h] at hd
  cases hd

/-! ## Numbers and names -/

section

variable {p : Char → Bool} {d : Char}

theorem takeWhile_append_cons (h : p d = false) (cs s : List Char) :
    (cs ++ d :: s).takeWhile p = cs.takeWhile p := by
  induction cs with
  | nil => rw [List.nil_append, List.takeWhile_cons, h]; rfl
  | cons c cs ih => rw [List.cons_append, List.takeWhile_cons, List.takeWhile_cons, ih]

theorem dropWhile_append_cons (h : p d = false) (cs s : List Char) :
    (cs ++ d :: s).dropWhile p = cs.dropWhile p ++ d :: s := by
  induction cs with
  | nil => rw [List.nil_append, List.dropWhile_cons, h]; rfl
  | cons c cs ih =>
    rw [List.cons_append, List.dropWhile_cons, List.dropWhile_cons, ih]
    split <;> rfl

end

variable {d : Char}

theorem wholeDigits?_cons (c : Char) (rest : List Char) :
    wholeDigits? (c :: rest) = if c = '0' then some (['0'], rest)
      else if c.isDigit then some (c :: rest.takeWhile Char.isDigit, rest.dropWhile Char.isDigit)
      else none := rfl

theorem wholeDigits?_append (hd : isMark d = true) (cs s : List Char) :
    wholeDigits? (cs ++ d :: s)
      = (wholeDigits? cs).map fun (digits, rest) => (digits, rest ++ d :: s) := by
  have hdigit := isDigit_of_isMark hd
  cases cs with
  | nil =>
    have hzero : d ≠ '0' := ne_of_isMark hd (by decide)
    rw [List.nil_append, wholeDigits?_cons, if_neg hzero, hdigit]
    rfl
  | cons c cs =>
    rw [List.cons_append, wholeDigits?_cons, wholeDigits?_cons]
    split
    · rfl
    · split
      · rw [takeWhile_append_cons hdigit, dropWhile_append_cons hdigit]
        rfl
      · rfl

theorem fractionDigits_of_ne {c : Char} (h : c ≠ '.') (cs : List Char) :
    fractionDigits (c :: cs) = ([], c :: cs) := by
  unfold fractionDigits
  split
  · next heq => exact absurd (List.cons.inj heq).1 h
  · rfl

theorem fractionDigits_append (hd : isMark d = true) (cs s : List Char) :
    fractionDigits (cs ++ d :: s) = ((fractionDigits cs).1, (fractionDigits cs).2 ++ d :: s) := by
  have hdigit := isDigit_of_isMark hd
  cases cs with
  | nil => exact fractionDigits_of_ne (ne_of_isMark hd (by decide)) s
  | cons c cs =>
    by_cases hpoint : c = '.'
    · subst hpoint
      rw [List.cons_append, fractionDigits, fractionDigits, takeWhile_append_cons hdigit,
        dropWhile_append_cons hdigit]
      cases cs.takeWhile Char.isDigit <;> rfl
    · rw [List.cons_append, fractionDigits_of_ne hpoint, fractionDigits_of_ne hpoint]
      rfl

/-- A sign in front of the digits of an exponent, and what follows it. -/
def exponentSign : List Char → Bool × List Char
  | '-' :: rest => (true, rest)
  | '+' :: rest => (false, rest)
  | rest => (false, rest)

theorem exponentSign_append (hd : isMark d = true) (cs s : List Char) :
    exponentSign (cs ++ d :: s) = ((exponentSign cs).1, (exponentSign cs).2 ++ d :: s) := by
  have hminus : d ≠ '-' := ne_of_isMark hd (by decide)
  have hplus : d ≠ '+' := ne_of_isMark hd (by decide)
  cases cs with
  | nil => simp [exponentSign, hminus, hplus]
  | cons c cs =>
    by_cases hc : c = '-'
    · subst hc; rfl
    · by_cases hc' : c = '+'
      · subst hc'; rfl
      · simp [exponentSign, hc, hc']

theorem exponent?_cons (e : Char) (rest : List Char) :
    exponent? (e :: rest) = if e = 'e' ∨ e = 'E' then
        match (exponentSign rest).2.takeWhile Char.isDigit with
        | [] => none
        | digits => some (if (exponentSign rest).1 then -(Text.numeral digits : Int)
            else Text.numeral digits, (exponentSign rest).2.dropWhile Char.isDigit)
      else none := by
  rfl

theorem exponent?_append (hd : isMark d = true) (cs s : List Char) :
    exponent? (cs ++ d :: s)
      = (exponent? cs).map fun (power, rest) => (power, rest ++ d :: s) := by
  have hdigit := isDigit_of_isMark hd
  cases cs with
  | nil =>
    have hsmall : d ≠ 'e' := ne_of_isMark hd (by decide)
    have hlarge : d ≠ 'E' := ne_of_isMark hd (by decide)
    rw [List.nil_append, exponent?_cons, if_neg (not_or.2 ⟨hsmall, hlarge⟩)]
    rfl
  | cons e cs =>
    rw [List.cons_append, exponent?_cons, exponent?_cons, exponentSign_append hd,
      takeWhile_append_cons hdigit, dropWhile_append_cons hdigit]
    split
    · cases (exponentSign cs).2.takeWhile Char.isDigit <;> rfl
    · rfl

/-- A minus in front of a number, and what follows it. -/
def numberSign : List Char → Bool × List Char
  | '-' :: rest => (true, rest)
  | rest => (false, rest)

theorem numberSign_append (hd : isMark d = true) (cs s : List Char) :
    numberSign (cs ++ d :: s) = ((numberSign cs).1, (numberSign cs).2 ++ d :: s) := by
  have hminus : d ≠ '-' := ne_of_isMark hd (by decide)
  cases cs with
  | nil => simp [numberSign, hminus]
  | cons c cs =>
    by_cases hc : c = '-'
    · subst hc
      rfl
    · simp [numberSign, hc]

/-- What digits, a fraction and an exponent make of a number. -/
def numberOf (negative : Bool) (whole : List Char) :
    List Char × List Char → Except Fault (Value × List Char)
  | (fraction, rest) =>
    match fraction, exponent? rest with
    | [], none =>
      if digitLimit < whole.length then .error .overlong
      else .ok (.int (if negative then -(Text.numeral whole : Int) else Text.numeral whole), rest)
    | fraction, power =>
      .ok (.float (Binary64.ofDecimal negative (Text.numeral (whole ++ fraction))
        ((power.getD (0, rest)).1 - fraction.length)), (power.getD (0, rest)).2)

theorem number_eq (cs : List Char) :
    number cs = match wholeDigits? (numberSign cs).2 with
      | none => .error (faultAt cs)
      | some (whole, rest) => numberOf (numberSign cs).1 whole (fractionDigits rest) := by
  rfl

theorem numberOf_append (hd : isMark d = true) (negative : Bool)
    (whole fraction rest s : List Char) :
    numberOf negative whole (fraction, rest ++ d :: s)
      = followedBy (d :: s) (numberOf negative whole (fraction, rest)) := by
  unfold numberOf
  dsimp only
  rw [exponent?_append hd]
  cases fraction with
  | nil =>
    cases exponent? rest with
    | none =>
      dsimp only [Option.map_none]
      split <;> rfl
    | some power => rfl
  | cons c fraction =>
    cases exponent? rest with
    | none => rfl
    | some power => rfl

/-- A mark behind a number is no part of it, nor is what follows. -/
theorem number_append (hd : isMark d = true) (cs s : List Char) :
    number (cs ++ d :: s) = followedBy (d :: s) (number cs) := by
  rw [number_eq, number_eq, numberSign_append hd, wholeDigits?_append hd]
  cases wholeDigits? (numberSign cs).2 with
  | none =>
    rw [Option.map_none]
    simp only [followedBy, faultAt, List.length_append]
  | some found =>
    rw [Option.map_some]
    dsimp only
    rw [fractionDigits_append hd, numberOf_append hd]

theorem isPrefixOf_append_mark {name : List Char} (h : d ∉ name) (cs s : List Char) :
    name.isPrefixOf (cs ++ d :: s) = name.isPrefixOf cs := by
  induction name generalizing cs with
  | nil => rfl
  | cons c name ih =>
    rw [List.mem_cons, not_or] at h
    cases cs with
    | nil =>
      rw [List.nil_append, List.isPrefixOf_cons_cons, beq_false_of_ne (Ne.symm h.1), Bool.false_and]
      rfl
    | cons c' cs =>
      rw [List.cons_append, List.isPrefixOf_cons_cons, List.isPrefixOf_cons_cons, ih h.2]

theorem atom_append (hd : isMark d = true) (cs s : List Char) :
    atom (cs ++ d :: s) = followedBy (d :: s) (atom cs) := by
  have hnames : ∀ entry ∈ names, entry.1.isPrefixOf (cs ++ d :: s) = entry.1.isPrefixOf cs := by
    intro entry hentry
    refine isPrefixOf_append_mark (fun hmem => ?_) cs s
    have hplain : names.all (fun entry => entry.1.all fun c => !isMark c) = true := by
      decide +kernel
    have hunmarked := List.all_eq_true.1 (List.all_eq_true.1 hplain entry hentry) d hmem
    rw [hd] at hunmarked
    cases hunmarked
  have hfind : (names.find? fun entry => entry.1.isPrefixOf (cs ++ d :: s))
      = names.find? fun entry => entry.1.isPrefixOf cs :=
    List.find?_congr hnames
  unfold atom
  rw [hfind]
  cases hfound : names.find? fun entry => entry.1.isPrefixOf cs with
  | none => exact number_append hd cs s
  | some entry =>
    obtain ⟨name, value⟩ := entry
    have hprefix : name <+: cs := by
      have hname := List.find?_some hfound
      exact List.isPrefixOf_iff_prefix.1 hname
    dsimp only
    rw [List.drop_append_of_le_length hprefix.length_le]
    rfl

/-! ### What is left -/

theorem suffix_of_wholeDigits? {cs digits rest : List Char}
    (h : wholeDigits? cs = some (digits, rest)) : rest <:+ cs := by
  cases cs with
  | nil => cases h
  | cons c cs =>
    rw [wholeDigits?_cons] at h
    split at h
    · cases h
      exact List.suffix_cons _ _
    · split at h
      · cases h
        exact (List.dropWhile_suffix _).trans (List.suffix_cons _ _)
      · cases h

theorem suffix_fractionDigits (cs : List Char) : (fractionDigits cs).2 <:+ cs := by
  cases cs with
  | nil => exact List.suffix_rfl
  | cons c cs =>
    by_cases hpoint : c = '.'
    · subst hpoint
      rw [fractionDigits]
      split
      · exact List.suffix_rfl
      · exact (List.dropWhile_suffix _).trans (List.suffix_cons _ _)
    · have hsame : (fractionDigits (c :: cs)).2 = c :: cs :=
        congrArg Prod.snd (fractionDigits_of_ne hpoint cs)
      exact ⟨[], hsame⟩

theorem suffix_exponentSign (cs : List Char) : (exponentSign cs).2 <:+ cs := by
  unfold exponentSign
  split
  · exact List.suffix_cons _ _
  · exact List.suffix_cons _ _
  · exact List.suffix_rfl

theorem suffix_of_exponent? {cs rest : List Char} {power : Int}
    (h : exponent? cs = some (power, rest)) : rest <:+ cs := by
  cases cs with
  | nil => cases h
  | cons e cs =>
    rw [exponent?_cons] at h
    split at h
    · split at h
      · cases h
      · cases h
        exact ((List.dropWhile_suffix _).trans (suffix_exponentSign cs)).trans
          (List.suffix_cons _ _)
    · cases h

theorem suffix_of_numberOf {negative : Bool} {whole rest : List Char}
    {behind : List Char × List Char} {v : Value}
    (h : numberOf negative whole behind = .ok (v, rest)) : rest <:+ behind.2 := by
  obtain ⟨fraction, left⟩ := behind
  unfold numberOf at h
  dsimp only at h
  cases hpower : exponent? left with
  | none =>
    rw [hpower] at h
    cases fraction with
    | nil =>
      dsimp only at h
      split at h
      · cases h
      · cases h
        exact List.suffix_rfl
    | cons c fraction =>
      cases h
      exact List.suffix_rfl
  | some power =>
    rw [hpower] at h
    have hsuffix := suffix_of_exponent? hpower
    cases fraction <;> cases h <;> exact hsuffix

theorem suffix_of_number {cs rest : List Char} {v : Value} (h : number cs = .ok (v, rest)) :
    rest <:+ cs := by
  have hsign : (numberSign cs).2 <:+ cs := by
    unfold numberSign
    split
    · exact List.suffix_cons _ _
    · exact List.suffix_rfl
  rw [number_eq] at h
  split at h
  · cases h
  · next whole behind hwhole =>
    have hbehind : (fractionDigits behind).2 <:+ cs :=
      ((suffix_fractionDigits behind).trans (suffix_of_wholeDigits? hwhole)).trans hsign
    exact (suffix_of_numberOf h).trans hbehind

theorem suffix_of_atom {cs rest : List Char} {v : Value} (h : atom cs = .ok (v, rest)) :
    rest <:+ cs := by
  unfold atom at h
  split at h
  · cases h
    exact List.drop_suffix _ _
  · exact suffix_of_number h

/-- A number or a name that a mark follows is read alike when more follows. -/
theorem atom_append_of_mark {cs rest : List Char} {v : Value} (hd : isMark d = true)
    (h : atom cs = .ok (v, d :: rest)) (s : List Char) :
    atom (cs ++ s) = .ok (v, d :: rest ++ s) := by
  obtain ⟨token, rfl⟩ := suffix_of_atom h
  rw [atom_append hd] at h
  rw [List.append_assoc, List.cons_append, atom_append hd]
  cases hatom : atom token with
  | error fault =>
    rw [hatom] at h
    cases fault <;> cases h
  | ok found =>
    obtain ⟨w, left⟩ := found
    rw [hatom] at h
    obtain ⟨rfl, hleft⟩ := Prod.mk.inj (Except.ok.inj h)
    rw [List.append_left_eq_self.1 hleft]
    rfl

/-! ## Strings -/

theorem trail?_of_ne {a b : Char} (h : ¬ (a = '\\' ∧ b = 'u')) (rest : List Char) :
    trail? (a :: b :: rest) = none := by
  unfold trail?
  split
  · next heq =>
    obtain ⟨ha, hrest⟩ := List.cons.inj heq
    exact absurd ⟨ha, (List.cons.inj hrest).1⟩ h
  · rfl

/-- A second code unit is looked for in seven characters. -/
theorem trail?_append {cs : List Char} (h : 7 ≤ cs.length) (s : List Char) :
    trail? (cs ++ s) = (trail? cs).map fun (unit, rest) => (unit, rest ++ s) := by
  match cs, h with
  | a :: b :: a₁ :: a₂ :: a₃ :: a₄ :: next :: rest, _ =>
    by_cases hescape : a = '\\' ∧ b = 'u'
    · obtain ⟨rfl, rfl⟩ := hescape
      simp only [List.cons_append, trail?]
      cases hexValue? a₁ a₂ a₃ a₄ with
      | none => rfl
      | some unit =>
        dsimp only
        split <;> rfl
    · simp only [List.cons_append, trail?_of_ne hescape]
      rfl

theorem length_of_trail?_eq_some {cs rest : List Char} {unit : Nat}
    (h : trail? cs = some (unit, rest)) : 7 ≤ cs.length := by
  unfold trail? at h
  split at h
  · simp only [List.length_cons]
    omega
  · cases h

/-- One escape, and what follows it. -/
def unescape (start : Nat) (cs : List Char) : Except Fault (Char × List Char) :=
  (escape start cs).map fun (c, rest) => (c, rest.1)

theorem length_of_unescape {start : Nat} {cs following : List Char} {c : Char}
    (h : unescape start cs = .ok (c, following)) : following.length < ('\\' :: cs).length := by
  unfold unescape at h
  cases hescape : escape start cs with
  | error fault =>
    rw [hescape] at h
    cases h
  | ok found =>
    rw [hescape] at h
    cases h
    exact Nat.lt_succ_of_lt found.2.2

theorem unescape_unit (start : Nat) (a b c d next : Char) (more : List Char) :
    unescape start ('u' :: a :: b :: c :: d :: next :: more) = match hexValue? a b c d with
      | none => .error (.malformed (more.length + 6))
      | some unit =>
        if isLead unit then
          match trail? (next :: more) with
          | some (trail, rest) => .ok (Text.pairChar unit trail, rest)
          | none => .ok (Text.unitChar unit, next :: more)
        else .ok (Text.unitChar unit, next :: more) := by
  simp only [unescape, escape]
  cases hexValue? a b c d with
  | none => rfl
  | some unit =>
    dsimp only
    split
    · split <;> next htrail => simp only [htrail, Except.map]
    · rfl

theorem unescape_short (start : Nat) {cs : List Char} (h : cs.length < 5) :
    ∃ fault, unescape start ('u' :: cs) = .error fault := by
  unfold unescape
  match cs, h with
  | [], _ => exact ⟨_, rfl⟩
  | [_], _ => exact ⟨_, rfl⟩
  | [_, _], _ => exact ⟨_, rfl⟩
  | [_, _, _], _ => exact ⟨_, rfl⟩
  | [_, _, _, _], _ => exact ⟨_, rfl⟩

theorem unescape_plain (start : Nat) {c : Char} (h : c ≠ 'u') (rest : List Char) :
    unescape start (c :: rest) = match escaped? c with
      | some e => .ok (e, rest)
      | none => .error (.malformed (rest.length + 2)) := by
  unfold unescape
  rw [escape, if_neg h]
  · cases escaped? c <;> rfl
  · exact fun _ _ _ _ _ _ hunit _ => h hunit

theorem characters_escape (start : Nat) (cs : List Char) :
    characters start ('\\' :: cs) = match unescape start cs with
      | .error fault => .error fault
      | .ok (c, following) =>
        match characters start following with
        | .error fault => .error fault
        | .ok (more, rest) => .ok (c :: more, rest) := by
  rw [characters, unescape]
  cases escape start cs <;> rfl

theorem characters_plain (start : Nat) {c : Char} (hquote : c ≠ '"') (hescape : c ≠ '\\')
    (cs : List Char) :
    characters start (c :: cs) = if c.toNat < 32 then .error (faultAt (c :: cs))
      else match characters start cs with
        | .error fault => .error fault
        | .ok (more, rest) => .ok (c :: more, rest) := by
  rewrite [characters]
  · rfl
  · exact hquote
  · exact hescape

/-- Before the rest of a string no second code unit comes about by what follows the string. -/
theorem trail?_append_of_none {start : Nat} {cs : List Char} {found : List Char × List Char}
    (hcs : characters start cs = .ok found) (h : trail? cs = none) (s : List Char) :
    trail? (cs ++ s) = none := by
  rcases Nat.lt_or_ge cs.length 7 with hshort | hlong
  · match cs with
    | [] =>
      rw [characters] at hcs
      cases hcs
    | [a] =>
      by_cases hescape : a = '\\'
      · subst hescape
        rw [characters_escape] at hcs
        cases hcs
      · cases s with
        | nil => exact h
        | cons b s => exact trail?_of_ne (fun hboth => hescape hboth.1) s
    | a :: b :: rest =>
      refine trail?_of_ne ?_ (rest ++ s)
      rintro ⟨rfl, rfl⟩
      simp only [List.length_cons] at hshort
      have hfew : rest.length < 5 := by omega
      obtain ⟨fault, hfault⟩ := unescape_short start hfew
      rw [characters_escape, hfault] at hcs
      cases hcs
  · rw [trail?_append hlong, h]
    rfl

theorem unescape_append {start : Nat} {cs following : List Char} {c : Char}
    {found : List Char × List Char} (h : unescape start cs = .ok (c, following))
    (hfollowing : characters start following = .ok found) (start' : Nat) (s : List Char) :
    unescape start' (cs ++ s) = .ok (c, following ++ s) := by
  match cs with
  | [] =>
    have hnone : unescape start [] = .error (.malformed start) := rfl
    rw [hnone] at h
    cases h
  | first :: rest =>
    by_cases hunit : first = 'u'
    · subst hunit
      rcases Nat.lt_or_ge rest.length 5 with hshort | hlong
      · obtain ⟨fault, hfault⟩ := unescape_short start hshort
        rw [hfault] at h
        cases h
      match rest, hlong with
      | a₁ :: a₂ :: a₃ :: a₄ :: next :: more, _ =>
        rw [unescape_unit] at h
        simp only [List.cons_append, unescape_unit]
        cases hvalue : hexValue? a₁ a₂ a₃ a₄ with
        | none =>
          rw [hvalue] at h
          cases h
        | some unit =>
          rw [hvalue] at h
          dsimp only at h ⊢
          split at h
          · next hlead =>
            rw [if_pos hlead]
            cases htrail : trail? (next :: more) with
            | none =>
              rw [htrail] at h
              cases h
              rw [← List.cons_append, trail?_append_of_none hfollowing htrail]
            | some pair =>
              obtain ⟨trail, left⟩ := pair
              rw [htrail] at h
              obtain ⟨rfl, rfl⟩ := Prod.mk.inj (Except.ok.inj h)
              rw [← List.cons_append, trail?_append (length_of_trail?_eq_some htrail), htrail]
              rfl
          · next hlead =>
            rw [if_neg hlead]
            cases h
            rfl
    · rw [unescape_plain start hunit] at h
      rw [List.cons_append, unescape_plain start' hunit]
      cases hescaped : escaped? first with
      | none =>
        rw [hescaped] at h
        cases h
      | some e =>
        rw [hescaped] at h
        cases h
        rfl

/-- A string ends at its closing mark, whatever follows. -/
theorem characters_append {start : Nat} {cs found rest : List Char}
    (h : characters start cs = .ok (found, rest)) (start' : Nat) (s : List Char) :
    characters start' (cs ++ s) = .ok (found, rest ++ s) := by
  induction hlength : cs.length using Nat.strong_induction_on generalizing cs found rest with
  | _ length ih =>
    subst hlength
    match cs with
    | [] =>
      rw [characters] at h
      cases h
    | c :: cs =>
      by_cases hquote : c = '"'
      · subst hquote
        rw [characters] at h
        cases h
        rw [List.cons_append, characters]
      · by_cases hescape : c = '\\'
        · subst hescape
          rw [characters_escape] at h
          rw [List.cons_append, characters_escape]
          cases hone : unescape start cs with
          | error fault =>
            rw [hone] at h
            cases h
          | ok one =>
            obtain ⟨e, following⟩ := one
            rw [hone] at h
            dsimp only at h
            split at h
            · cases h
            · next hmore =>
              cases h
              rw [unescape_append hone hmore]
              dsimp only
              rw [ih _ (length_of_unescape hone) hmore rfl]
        · rw [characters_plain start hquote hescape] at h
          rw [List.cons_append, characters_plain start' hquote hescape]
          split at h
          · cases h
          · next hprintable =>
            rw [if_neg hprintable]
            split at h
            · cases h
            · next hmore =>
              cases h
              rw [ih _ (by simp) hmore rfl]

theorem string_append {cs rest : List Char} {found : String} (h : string cs = .ok (found, rest))
    (s : List Char) : string (cs ++ s) = .ok (found, rest ++ s) := by
  unfold string at h ⊢
  cases hcs : characters (cs.length + 1) cs with
  | error fault =>
    rw [hcs] at h
    cases h
  | ok read =>
    rw [hcs] at h
    cases h
    rw [characters_append hcs]
    rfl

/-! ## Values -/

/-- White space before something is skipped alike when more follows. -/
theorem skip_append_of_cons {cs rest : List Char} {c : Char} (h : skip cs = c :: rest)
    (s : List Char) : skip (cs ++ s) = c :: (rest ++ s) := by
  rw [skip, List.dropWhile_append, ← skip, h]
  rfl

/-- What a mark follows after white space starts with a mark. -/
theorem exists_mark_of_skip {cs rest : List Char} {c : Char} (h : skip cs = c :: rest)
    (hc : isMark c = true) : ∃ d left, cs = d :: left ∧ isMark d = true := by
  cases cs with
  | nil => cases h
  | cons d left =>
    refine ⟨d, left, rfl, ?_⟩
    rw [skip, List.dropWhile_cons] at h
    split at h
    · next hspace => rw [isMark, hspace]; rfl
    · cases h
      exact hc

/-- A list or a record, given the text after its opening: what an empty one is, how what is in it is
read, and what comes of that. -/
def enclosed {α : Type} (closing : Char) (empty : Value)
    (read : List Char → Except Fault (α × List Char)) (wrap : α → Value) (cs : List Char) :
    Except Fault (Value × List Char) :=
  if (skip cs).head? = some closing then .ok (empty, (skip cs).tail)
  else do
    let (found, rest) ← read (skip cs)
    return (wrap found, rest)

theorem value_list (n : Nat) (cs : List Char) :
    value (n + 1) ('\x5b' :: cs) = enclosed '\x5d' (.list []) (items n) .list cs := by
  rw [value, enclosed]
  cases skip cs with
  | nil => rfl
  | cons c rest =>
    by_cases hclosed : c = '\x5d'
    · subst hclosed
      rfl
    · rw [List.head?_cons, if_neg (fun h => hclosed (Option.some.inj h))]
      split
      · next heq => exact absurd (List.cons.inj heq).1 hclosed
      · rfl

theorem value_record (n : Nat) (cs : List Char) :
    value (n + 1) ('\x7b' :: cs)
      = enclosed '\x7d' (.record []) (fields n) (fun found => .record (Table.ofList found)) cs := by
  rw [value, enclosed]
  cases skip cs with
  | nil => rfl
  | cons c rest =>
    by_cases hclosed : c = '\x7d'
    · subst hclosed
      rfl
    · rw [List.head?_cons, if_neg (fun h => hclosed (Option.some.inj h))]
      split
      · next heq => exact absurd (List.cons.inj heq).1 hclosed
      · rfl

theorem value_atom (n : Nat) {cs : List Char}
    (h : ∀ c ∈ cs.head?, c ≠ '"' ∧ c ≠ '\x5b' ∧ c ≠ '\x7b') :
    value (n + 1) cs = atom cs := by
  cases cs with
  | nil => rfl
  | cons c cs =>
    obtain ⟨hquote, hlist, hrecord⟩ := h c rfl
    rw [value]
    · exact fun rest heq => hquote (List.cons.inj heq).1
    · exact fun rest heq => hlist (List.cons.inj heq).1
    · exact fun rest heq => hrecord (List.cons.inj heq).1

/-- Nothing is read of an empty text. -/
theorem items_nil (n : Nat) : ∃ fault, items n [] = .error fault := by
  cases n with
  | zero => exact ⟨_, rfl⟩
  | succ n => cases n <;> exact ⟨_, rfl⟩

theorem fields_nil (n : Nat) : ∃ fault, fields n [] = .error fault := by
  cases n <;> exact ⟨_, rfl⟩

theorem value_nil (n : Nat) : ∃ fault, value n [] = .error fault := by
  cases n <;> exact ⟨_, rfl⟩

/-- What is read of something is read of what follows white space that is skipped. -/
theorem skip_append_of_read {α : Type} {read : List Char → Except Fault α} {cs : List Char}
    {found : α} (hnil : ∃ fault, read [] = .error fault) (h : read (skip cs) = .ok found)
    (s : List Char) : skip (cs ++ s) = skip cs ++ s := by
  cases hskip : skip cs with
  | nil =>
    obtain ⟨fault, hfault⟩ := hnil
    rw [hskip, hfault] at h
    cases h
  | cons c rest => exact skip_append_of_cons hskip s

/-- Whether a value that a mark follows is read alike with a larger allowance and when more
follows. -/
def ValuesEnd (n : Nat) : Prop :=
  ∀ {m : Nat} {cs rest : List Char} {v : Value} {d : Char}, n ≤ m → isMark d = true →
    value n cs = .ok (v, d :: rest) → ∀ s, value m (cs ++ s) = .ok (v, d :: rest ++ s)

/-- Whether items are read alike with a larger allowance and when more follows. -/
def ItemsEnd (n : Nat) : Prop :=
  ∀ {m : Nat} {cs rest : List Char} {found : List Value}, n ≤ m →
    items n cs = .ok (found, rest) → ∀ s, items m (cs ++ s) = .ok (found, rest ++ s)

/-- Whether fields are read alike with a larger allowance and when more follows. -/
def FieldsEnd (n : Nat) : Prop :=
  ∀ {m : Nat} {cs rest : List Char} {found : List (String × Value)}, n ≤ m →
    fields n cs = .ok (found, rest) → ∀ s, fields m (cs ++ s) = .ok (found, rest ++ s)

theorem ItemsEnd.succ {n : Nat} (hvalues : ValuesEnd n) (hitems : ItemsEnd n) :
    ItemsEnd (n + 1) := by
  intro m cs rest found hm h s
  obtain ⟨m, rfl⟩ := Nat.exists_eq_add_of_le' (Nat.one_le_of_lt hm)
  have hle : n ≤ m := Nat.le_of_succ_le_succ hm
  rw [items] at h ⊢
  obtain ⟨⟨first, behind⟩, hfirst, h⟩ := Outcome.bind_eq_ok.1 h
  dsimp only at h
  split at h
  · next rest' hskip =>
    obtain ⟨⟨others, left⟩, hothers, h⟩ := Outcome.bind_eq_ok.1 h
    cases h
    obtain ⟨d, more, rfl, hd⟩ := exists_mark_of_skip hskip (by decide)
    rw [hvalues hle hd hfirst]
    simp only [bind, Except.bind, skip_append_of_cons hskip]
    rw [skip_append_of_read (items_nil n) hothers, hitems hle hothers]
    rfl
  · next rest' hskip =>
    cases h
    obtain ⟨d, more, rfl, hd⟩ := exists_mark_of_skip hskip (by decide)
    rw [hvalues hle hd hfirst]
    simp only [bind, Except.bind, skip_append_of_cons hskip]
    rfl
  · cases h

/-- Fields after the first key and its colon. -/
theorem fields_colon (n : Nat) {cs behind rest : List Char} {key : String}
    (hkey : string cs = .ok (key, behind)) (hcolon : skip behind = ':' :: rest) :
    fields (n + 1) ('"' :: cs) = (do
      let (first, rest) ← value n (skip rest)
      match skip rest with
      | ',' :: rest =>
        let (others, rest) ← fields n (skip rest)
        return ((key, first) :: others, rest)
      | '\x7d' :: rest => return ([(key, first)], rest)
      | rest => .error (faultAt rest)) := by
  rw [fields, hkey]
  simp only [bind, Except.bind]
  rw [hcolon]
  rfl

/-- Fields start with a key and a colon. -/
theorem exists_of_fields {n : Nat} {cs rest : List Char} {found : List (String × Value)}
    (h : fields (n + 1) cs = .ok (found, rest)) : ∃ cs' key behind left,
      cs = '"' :: cs' ∧ string cs' = .ok (key, behind) ∧ skip behind = ':' :: left := by
  cases cs with
  | nil =>
    obtain ⟨fault, hfault⟩ := fields_nil (n + 1)
    rw [hfault] at h
    cases h
  | cons c cs =>
    by_cases hquote : c = '"'
    · subst hquote
      rw [fields] at h
      obtain ⟨⟨key, behind⟩, hkey, h⟩ := Outcome.bind_eq_ok.1 h
      dsimp only at h
      split at h
      · next left hcolon => exact ⟨cs, key, behind, left, rfl, hkey, hcolon⟩
      · cases h
    · rw [fields] at h
      · cases h
      · exact fun rest heq => hquote (List.cons.inj heq).1

theorem FieldsEnd.succ {n : Nat} (hvalues : ValuesEnd n) (hfields : FieldsEnd n) :
    FieldsEnd (n + 1) := by
  intro m cs rest found hm h s
  obtain ⟨m, rfl⟩ := Nat.exists_eq_add_of_le' (Nat.one_le_of_lt hm)
  have hle : n ≤ m := Nat.le_of_succ_le_succ hm
  obtain ⟨cs, key, behind, behind', rfl, hkey, hcolon⟩ := exists_of_fields h
  rw [fields_colon n hkey hcolon] at h
  rw [List.cons_append, fields_colon m (string_append hkey s) (skip_append_of_cons hcolon s)]
  obtain ⟨⟨first, left⟩, hfirst, h⟩ := Outcome.bind_eq_ok.1 h
  rw [skip_append_of_read (value_nil n) hfirst]
  dsimp only at h
  split at h
  · next left' hskip =>
    obtain ⟨⟨others, last⟩, hothers, h⟩ := Outcome.bind_eq_ok.1 h
    cases h
    obtain ⟨d, more, rfl, hd⟩ := exists_mark_of_skip hskip (by decide)
    rw [hvalues hle hd hfirst]
    simp only [bind, Except.bind, skip_append_of_cons hskip]
    rw [skip_append_of_read (fields_nil n) hothers, hfields hle hothers]
    rfl
  · next left' hskip =>
    cases h
    obtain ⟨d, more, rfl, hd⟩ := exists_mark_of_skip hskip (by decide)
    rw [hvalues hle hd hfirst]
    simp only [bind, Except.bind, skip_append_of_cons hskip]
    rfl
  · cases h

/-- What is enclosed ends at its closing mark, whatever follows. -/
theorem enclosed_append {α : Type} {closing : Char} {empty v : Value} {wrap : α → Value}
    {read reread : List Char → Except Fault (α × List Char)} {cs rest s : List Char}
    (hnil : ∃ fault, read [] = .error fault)
    (hread : ∀ {cs rest found}, read cs = .ok (found, rest) →
      reread (cs ++ s) = .ok (found, rest ++ s))
    (h : enclosed closing empty read wrap cs = .ok (v, rest)) :
    enclosed closing empty reread wrap (cs ++ s) = .ok (v, rest ++ s) := by
  unfold enclosed at h ⊢
  cases hskip : skip cs with
  | nil =>
    obtain ⟨fault, hfault⟩ := hnil
    rw [hskip, hfault, if_neg (by simp)] at h
    cases h
  | cons c left =>
    rw [hskip, List.head?_cons] at h
    rw [skip_append_of_cons hskip, List.head?_cons]
    split at h
    · next hclosed =>
      rw [if_pos hclosed]
      cases h
      rfl
    · next hopen =>
      rw [if_neg hopen]
      obtain ⟨⟨found, behind⟩, hfound, h⟩ := Outcome.bind_eq_ok.1 h
      cases h
      rw [← List.cons_append, hread hfound]
      rfl

theorem ValuesEnd.succ {n : Nat} (hitems : ItemsEnd n) (hfields : FieldsEnd n) :
    ValuesEnd (n + 1) := by
  intro m cs rest v d hm hd h s
  obtain ⟨m, rfl⟩ := Nat.exists_eq_add_of_le' (Nat.one_le_of_lt hm)
  have hle : n ≤ m := Nat.le_of_succ_le_succ hm
  by_cases hatom : ∀ c ∈ cs.head?, c ≠ '"' ∧ c ≠ '\x5b' ∧ c ≠ '\x7b'
  · have hatom' : ∀ c ∈ (cs ++ s).head?, c ≠ '"' ∧ c ≠ '\x5b' ∧ c ≠ '\x7b' := by
      cases cs with
      | nil =>
        obtain ⟨fault, hfault⟩ := value_nil (n + 1)
        rw [hfault] at h
        cases h
      | cons c cs => exact hatom
    rw [value_atom n hatom] at h
    rw [value_atom m hatom', atom_append_of_mark hd h]
  · cases cs with
    | nil => exact absurd (fun c hc => absurd hc (Option.not_mem_none c)) hatom
    | cons c cs =>
      rw [List.cons_append]
      by_cases hquote : c = '"'
      · subst hquote
        rw [value] at h ⊢
        obtain ⟨⟨text, behind⟩, htext, h⟩ := Outcome.bind_eq_ok.1 h
        cases h
        rw [string_append htext]
        rfl
      · by_cases hlist : c = '\x5b'
        · subst hlist
          rw [value_list] at h ⊢
          exact enclosed_append (items_nil n) (fun hfound => hitems hle hfound s) h
        · by_cases hrecord : c = '\x7b'
          · subst hrecord
            rw [value_record] at h ⊢
            exact enclosed_append (fields_nil n) (fun hfound => hfields hle hfound s) h
          · refine absurd (fun e he => ?_) hatom
            cases he
            exact ⟨hquote, hlist, hrecord⟩

theorem append_of_value (n : Nat) : ValuesEnd n ∧ ItemsEnd n ∧ FieldsEnd n := by
  induction n with
  | zero =>
    refine ⟨fun _ _ h => ?_, fun _ h => ?_, fun _ h => ?_⟩
    · rw [value] at h
      cases h
    · rw [items] at h
      cases h
    · rw [fields] at h
      cases h
  | succ n ih =>
    obtain ⟨hvalues, hitems, hfields⟩ := ih
    exact ⟨ValuesEnd.succ hitems hfields, ItemsEnd.succ hvalues hitems,
      FieldsEnd.succ hvalues hfields⟩

/-- A record is read alike with a larger allowance and whatever follows. -/
theorem value_record_append {n m : Nat} (hm : n ≤ m) {cs rest : List Char} {v : Value}
    (h : value n ('\x7b' :: cs) = .ok (v, rest)) (s : List Char) :
    value m ('\x7b' :: cs ++ s) = .ok (v, rest ++ s) := by
  cases n with
  | zero =>
    rw [value] at h
    cases h
  | succ n =>
    obtain ⟨m, rfl⟩ := Nat.exists_eq_add_of_le' (Nat.one_le_of_lt hm)
    rw [value_record] at h
    rw [List.cons_append, value_record]
    exact enclosed_append (fields_nil n) (fun hfound =>
      (append_of_value n).2.2 (Nat.le_of_succ_le_succ hm) hfound s) h

/-- A document is a value with white space around it. -/
theorem exists_of_document {cs : List Char} {v : Value} (h : document cs = .ok v) :
    ∃ rest, value (2 * cs.length + 2) (skip cs) = .ok (v, rest) ∧ skip rest = [] := by
  unfold document at h
  dsimp only [bind, Except.bind] at h
  cases hvalue : value (2 * cs.length + 2) (skip cs) with
  | error fault =>
    rw [hvalue] at h
    cases h
  | ok found =>
    obtain ⟨w, rest⟩ := found
    rw [hvalue] at h
    dsimp only at h
    cases hrest : skip rest with
    | nil =>
      rw [hrest] at h
      cases h
      exact ⟨rest, rfl, hrest⟩
    | cons c left =>
      rw [hrest] at h
      cases h

end BlockDiagram.Json
