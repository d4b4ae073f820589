import BlockDiagram.Error
import BlockDiagram.Reference

/-!
# Literals in configuration text

A text that is one interpolation stands bare, as the expression inside; any other text stands in
quotes with its quotes, backslashes, line breaks and tabs escaped. Lists and objects take one line
per entry, indented by their level; the first line of a literal is not indented. The runtime bounds
how many digits a whole number may have to be written down; the bound is a setting of it.

* `Block.quote`: a text in quotes.
* `Block.literal`: a value; a number that is not finite, or too long, has no literal.
-/

namespace BlockDiagram.Block

/-- The white space at the start of a line of a level. -/
def indent (level : Int) : String := Text.repeated level "  "

/-- A character inside quotes. -/
def escape : Char → String
  | '\\' => "\\\\"
  | '"' => "\\\""
  | '\n' => "\\n"
  | '\r' => "\\r"
  | '\t' => "\\t"
  | c => String.singleton c

def quote (s : String) : String := "\"" ++ Text.join "" (s.toList.map escape) ++ "\""

/-- Whether a key may stand bare: it is an identifier; a line feed may follow. -/
def isBareKey (key : String) : Bool :=
  Text.isIdentifier (Reference.withoutFinalBreak key.toList)

def objectKey (key : String) : String := if isBareKey key then key else quote key

/-- A text: the expression of an interpolation, or the text in quotes. -/
def textLiteral (s : String) : String :=
  match Reference.whole? s with
  | some expression => expression
  | none => quote s

/-- Whether a whole number has more digits than a limit; there is none if it is zero. -/
def isOverlong (limit : Nat) (n : Int) : Bool := limit ≠ 0 ∧ Nat.pow 10 limit ≤ n.natAbs

/-- The digits of a whole number. -/
def digits (limit : Nat) (n : Int) : Except Error String :=
  if isOverlong limit n then .error (.defect .badValue) else .ok (Int.repr n)

mutual

/-- A value on the right of an equals sign. -/
def literal (limit : Nat) : Value → Int → Except Error String
  | .null, _ => .ok "null"
  | .bool b, _ => .ok (if b then "true" else "false")
  | .int n, _ => digits limit n
  | .float x, _ => if x.isFinite then .ok x.toText else .error (.unwritable (.number x))
  | .text s, _ => .ok (textLiteral s)
  | .list [], _ => .ok "[]"
  | .list (first :: rest), level => do
    let items ← literalItems limit (first :: rest) (level + 1)
    return "[\n" ++ items ++ indent level ++ "]"
  | .record [], _ => .ok "\x7b\x7d"
  | .record (first :: rest), level => do
    let fields ← literalFields limit (first :: rest) (level + 1)
    return "\x7b\n" ++ fields ++ indent level ++ "\x7d"

/-- The items of a list, one a line. -/
def literalItems (limit : Nat) : List Value → Int → Except Error String
  | [], _ => .ok ""
  | item :: rest, level => do
    let first ← literal limit item level
    let others ← literalItems limit rest level
    return indent level ++ first ++ ",\n" ++ others

/-- The entries of an object, one a line. -/
def literalFields (limit : Nat) : List (String × Value) → Int → Except Error String
  | [], _ => .ok ""
  | (key, value) :: rest, level => do
    let first ← literal limit value level
    let others ← literalFields limit rest level
    return indent level ++ objectKey key ++ " = " ++ first ++ "\n" ++ others

end

end BlockDiagram.Block
