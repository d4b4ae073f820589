import BlockDiagram.Binary64.Decimal
import BlockDiagram.Text.Digits
import BlockDiagram.Text.Encoding
import BlockDiagram.Value

/-!
# Reading JSON

The reader takes JSON with three more numbers, `NaN`, `Infinity` and `-Infinity`. Only the space,
the tab, the line feed and the carriage return stand between tokens. A number without fraction and
exponent is whole and exact; any other is rounded to a floating-point one. A whole number has a
limited count of digits. Of fields with one key the last counts, at the place of the first.

Every function returns what follows the part that it has read, or the fault: how many characters
were left where the text stops being JSON, or that a whole number is too long. Nesting is bounded by
an allowance that `document` computes from the length of the text and that no text exhausts.
-/

namespace BlockDiagram.Json

open Text (hexDigit? numeral isLead isTrail unitChar pairChar)

/-- Why a text is not read: it stops being JSON where so many characters are left, or a whole number
in it is too long. -/
inductive Fault where
  | malformed (left : Nat)
  | overlong
deriving DecidableEq, Repr

def faultAt (rest : List Char) : Fault := .malformed rest.length

/-- White space between tokens. -/
def isSpace (c : Char) : Bool := c == ' ' || c == '\t' || c == '\n' || c == '\r'

/-- A text without the white space at its start. -/
def skip (cs : List Char) : List Char := cs.dropWhile isSpace

/-! ## Strings -/

/-- The value of four hexadecimal digits. -/
def hexValue? (a b c d : Char) : Option Nat := do
  let a ← hexDigit? a
  let b ← hexDigit? b
  let c ← hexDigit? c
  let d ← hexDigit? d
  return ((a * 16 + b) * 16 + c) * 16 + d

/-- The character after a backslash that stands for another one. -/
def escaped? : Char → Option Char
  | '"' => some '"'
  | '\\' => some '\\'
  | '/' => some '/'
  | 'b' => some '\x08'
  | 'f' => some '\x0c'
  | 'n' => some '\n'
  | 'r' => some '\r'
  | 't' => some '\t'
  | _ => none

/-- The second code unit of a pair, when an escape for one follows and a character after it. -/
def trail? : List Char → Option (Nat × List Char)
  | '\\' :: 'u' :: a :: b :: c :: d :: next :: rest =>
    match hexValue? a b c d with
    | some unit => if isTrail unit then some (unit, next :: rest) else none
    | none => none
  | _ => none

theorem length_of_trail? {cs rest : List Char} {unit : Nat} (h : trail? cs = some (unit, rest)) :
    rest.length < cs.length := by
  unfold trail? at h
  split at h
  · split at h
    · split at h
      · simp only [Option.some.injEq, Prod.mk.injEq] at h
        rw [← h.2]
        simp
      · simp at h
    · simp at h
  · simp at h

/-- One escape: the character that it stands for and what follows, given the text after the
backslash. An escape by code units needs a character after its four digits. -/
def escape (start : Nat) (cs : List Char) :
    Except Fault (Char × { rest : List Char // rest.length < cs.length }) :=
  match cs with
  | [] => .error (.malformed start)
  | 'u' :: a :: b :: c :: d :: next :: more =>
    match hexValue? a b c d with
    | none => .error (.malformed (more.length + 6))
    | some unit =>
      if isLead unit then
        match h : trail? (next :: more) with
        | some (trail, rest) =>
          .ok (pairChar unit trail, ⟨rest, by
            have := length_of_trail? h
            simp only [List.length_cons] at this ⊢
            omega⟩)
        | none => .ok (unitChar unit, ⟨next :: more, by simp only [List.length_cons]; omega⟩)
      else .ok (unitChar unit, ⟨next :: more, by simp only [List.length_cons]; omega⟩)
  | c :: rest =>
    if c = 'u' then .error (faultAt cs)
    else match escaped? c with
      | some e => .ok (e, ⟨rest, by simp⟩)
      | none => .error (.malformed (rest.length + 2))

/-- The characters of a string up to its closing mark; `start` is what was left at the opening
one. -/
def characters (start : Nat) (cs : List Char) : Except Fault (List Char × List Char) :=
  match cs with
  | [] => .error (.malformed start)
  | '"' :: rest => .ok ([], rest)
  | '\\' :: rest =>
    match escape start rest with
    | .error fault => .error fault
    | .ok (c, ⟨following, _⟩) =>
      match characters start following with
      | .error fault => .error fault
      | .ok (more, rest) => .ok (c :: more, rest)
  | c :: rest =>
    if c.toNat < 32 then .error (faultAt cs)
    else match characters start rest with
      | .error fault => .error fault
      | .ok (more, rest) => .ok (c :: more, rest)
termination_by cs.length
decreasing_by
  all_goals simp only [List.length_cons]; omega

/-- A string, given the text after its opening mark. -/
def string (cs : List Char) : Except Fault (String × List Char) := do
  let (s, rest) ← characters (cs.length + 1) cs
  return (String.ofList s, rest)

/-! ## Numbers and names -/

/-- The whole part of a number: a zero alone, or digits that start with another one. -/
def wholeDigits? : List Char → Option (List Char × List Char)
  | [] => none
  | c :: rest =>
    if c = '0' then some (['0'], rest)
    else if c.isDigit then some (c :: rest.takeWhile Char.isDigit, rest.dropWhile Char.isDigit)
    else none

/-- The digits of a fraction, if one follows. -/
def fractionDigits : List Char → List Char × List Char
  | '.' :: rest =>
    match rest.takeWhile Char.isDigit with
    | [] => ([], '.' :: rest)
    | digits => (digits, rest.dropWhile Char.isDigit)
  | cs => ([], cs)

/-- The exponent, if one follows. -/
def exponent? (cs : List Char) : Option (Int × List Char) :=
  match cs with
  | [] => none
  | e :: rest =>
    if e = 'e' ∨ e = 'E' then
      let (negative, rest) := match rest with
        | '-' :: rest => (true, rest)
        | '+' :: rest => (false, rest)
        | rest => (false, rest)
      match rest.takeWhile Char.isDigit with
      | [] => none
      | digits =>
        let size : Int := numeral digits
        some (if negative then -size else size, rest.dropWhile Char.isDigit)
    else none

/-- How many digits a whole number has at most. -/
def digitLimit : Nat := 4300

def number (cs : List Char) : Except Fault (Value × List Char) :=
  let (negative, unsigned) := match cs with
    | '-' :: rest => (true, rest)
    | rest => (false, rest)
  match wholeDigits? unsigned with
  | none => .error (faultAt cs)
  | some (whole, rest) =>
    let (fraction, rest) := fractionDigits rest
    match fraction, exponent? rest with
    | [], none =>
      if digitLimit < whole.length then .error .overlong
      else
        let size : Int := numeral whole
        .ok (.int (if negative then -size else size), rest)
    | fraction, power =>
      let (exponent, rest) := power.getD (0, rest)
      let digits := numeral (whole ++ fraction)
      .ok (.float (Binary64.ofDecimal negative digits (exponent - fraction.length)), rest)

def names : List (List Char × Value) := [
  ("null".toList, .null), ("true".toList, .bool true), ("false".toList, .bool false),
  ("NaN".toList, .float .nan), ("Infinity".toList, .float (.infinity false)),
  ("-Infinity".toList, .float (.infinity true))]

def atom (cs : List Char) : Except Fault (Value × List Char) :=
  match names.find? fun entry => entry.1.isPrefixOf cs with
  | some (name, value) => .ok (value, cs.drop name.length)
  | none => number cs

/-! ## Values -/

mutual

def value : Nat → List Char → Except Fault (Value × List Char)
  | 0, cs => .error (faultAt cs)
  | allowance + 1, cs =>
    match cs with
    | '"' :: rest => do
      let (s, rest) ← string rest
      return (.text s, rest)
    | '\x5b' :: rest =>
      match skip rest with
      | '\x5d' :: rest => .ok (.list [], rest)
      | rest => do
        let (found, rest) ← items allowance rest
        return (.list found, rest)
    | '\x7b' :: rest =>
      match skip rest with
      | '\x7d' :: rest => .ok (.record [], rest)
      | rest => do
        let (found, rest) ← fields allowance rest
        return (.record (Table.ofList found), rest)
    | cs => atom cs

/-- The items of a list up to its closing bracket. -/
def items : Nat → List Char → Except Fault (List Value × List Char)
  | 0, cs => .error (faultAt cs)
  | allowance + 1, cs => do
    let (first, rest) ← value allowance cs
    match skip rest with
    | ',' :: rest =>
      let (others, rest) ← items allowance (skip rest)
      return (first :: others, rest)
    | '\x5d' :: rest => return ([first], rest)
    | rest => .error (faultAt rest)

/-- The fields of a record up to its closing brace. -/
def fields : Nat → List Char → Except Fault (List (String × Value) × List Char)
  | 0, cs => .error (faultAt cs)
  | allowance + 1, cs =>
    match cs with
    | '"' :: rest => do
      let (key, rest) ← string rest
      match skip rest with
      | ':' :: rest =>
        let (first, rest) ← value allowance (skip rest)
        match skip rest with
        | ',' :: rest =>
          let (others, rest) ← fields allowance (skip rest)
          return ((key, first) :: others, rest)
        | '\x7d' :: rest => return ([(key, first)], rest)
        | rest => .error (faultAt rest)
      | rest => .error (faultAt rest)
    | cs => .error (faultAt cs)

end

/-- Why a text is no document: it stops being JSON at the character with an offset, or a whole
number in it is too long. -/
inductive Refusal where
  | malformed (offset : Nat)
  | overlong
deriving DecidableEq, Repr

/-- The refusal of a text of some length for a fault. -/
def Fault.refusal (length : Nat) : Fault → Refusal
  | .malformed left => .malformed (length - left)
  | .overlong => .overlong

/-- The value that a whole text denotes. -/
def document (cs : List Char) : Except Refusal Value :=
  let result : Except Fault Value := do
    let (v, rest) ← value (2 * cs.length + 2) (skip cs)
    match skip rest with
    | [] => return v
    | rest => .error (faultAt rest)
  result.mapError (Fault.refusal cs.length)

/-- The value of a text of its own. A byte-order mark is no part of JSON. -/
def read (s : String) : Except Refusal Value :=
  match s.toList with
  | '\ufeff' :: _ => .error (.malformed 0)
  | cs => document cs

end BlockDiagram.Json
