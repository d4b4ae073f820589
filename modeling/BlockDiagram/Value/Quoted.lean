import BlockDiagram.Binary64.Decimal
import BlockDiagram.Text.Printable
import BlockDiagram.Text.Split
import BlockDiagram.Value

/-!
# Values as messages show them

`Value.quoted` shows a text in quotes and everything else as a literal; `Value.shown` is the same
except that a text stands for itself. Single quotes are used unless the text holds one and no
double quote. Characters that cannot be seen are written by code point.
-/

namespace BlockDiagram

namespace Text

/-- The lower-case hexadecimal digits of a number, filled up with zeros to a width. -/
def hex (width : Nat) (n : Nat) : String :=
  let digits := Nat.toDigits 16 n
  String.ofList (List.replicate (width - digits.length) '0' ++ digits)

/-- A character inside a literal that is quoted with `mark`. -/
def shownChar (mark c : Char) : String :=
  if c = mark ∨ c = '\\' then String.ofList ['\\', c]
  else if c = '\n' then "\\n"
  else if c = '\r' then "\\r"
  else if c = '\t' then "\\t"
  else if isPrintable c then String.singleton c
  else if c.toNat < 0x100 then "\\x" ++ hex 2 c.toNat
  else if c.toNat < 0x10000 then "\\u" ++ hex 4 c.toNat
  else "\\U" ++ hex 8 c.toNat

def markFor (s : String) : Char :=
  if s.toList.contains '\'' && !s.toList.contains '"' then '"' else '\''

def quoted (s : String) : String :=
  let mark := markFor s
  String.singleton mark ++ join "" (s.toList.map (shownChar mark)) ++ String.singleton mark

end Text

namespace Value

mutual

def quoted : Value → String
  | null => "None"
  | bool b => if b then "True" else "False"
  | int n => Int.repr n
  | float x => x.toText
  | text s => Text.quoted s
  | list items => "[" ++ Text.join ", " (quotedItems items) ++ "]"
  | record fields => "\x7b" ++ Text.join ", " (quotedFields fields) ++ "\x7d"

/-- The literals of a list's items. -/
def quotedItems : List Value → List String
  | [] => []
  | item :: rest => quoted item :: quotedItems rest

/-- The literals of a record's fields, each after its key. -/
def quotedFields : List (String × Value) → List String
  | [] => []
  | (key, value) :: rest => (Text.quoted key ++ ": " ++ quoted value) :: quotedFields rest

end

/-- A value in running text: a text as it is, anything else as a literal. -/
def shown : Value → String
  | text s => s
  | value => value.quoted

@[simp] theorem shown_text (s : String) : shown (text s) = s := rfl

end Value

end BlockDiagram
