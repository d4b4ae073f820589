import BlockDiagram.Binary64.Decimal
import BlockDiagram.Text.Split
import BlockDiagram.Value

/-!
# Writing JSON

A comma and a colon are followed by one space. Everything outside printable ASCII is written by
UTF-16 code units, and numbers that are not finite by the names that the reader takes.
-/

namespace BlockDiagram.Json

def unitEscape (unit : Nat) : String :=
  let digits := Nat.toDigits 16 unit
  "\\u" ++ String.ofList (List.replicate (4 - digits.length) '0' ++ digits)

def charText (c : Char) : String :=
  if c = '"' then "\\\""
  else if c = '\\' then "\\\\"
  else if c = '\n' then "\\n"
  else if c = '\r' then "\\r"
  else if c = '\t' then "\\t"
  else if c = '\x08' then "\\b"
  else if c = '\x0c' then "\\f"
  else if 32 ≤ c.toNat ∧ c.toNat < 127 then String.singleton c
  else if c.toNat < 0x10000 then unitEscape c.toNat
  else
    let offset := c.toNat - 0x10000
    unitEscape (0xd800 + offset / 0x400) ++ unitEscape (0xdc00 + offset % 0x400)

def stringText (s : String) : String :=
  "\"" ++ Text.join "" (s.toList.map charText) ++ "\""

/-- A floating-point number. -/
def realText : Binary64 → String
  | .nan => "NaN"
  | .infinity negative => if negative then "-Infinity" else "Infinity"
  | x => x.toText

mutual

def write : Value → String
  | .null => "null"
  | .bool b => if b then "true" else "false"
  | .int n => Int.repr n
  | .float x => realText x
  | .text s => stringText s
  | .list items => "[" ++ Text.join ", " (writeItems items) ++ "]"
  | .record fields => "\x7b" ++ Text.join ", " (writeFields fields) ++ "\x7d"

def writeItems : List Value → List String
  | [] => []
  | item :: rest => write item :: writeItems rest

/-- The fields of a record as JSON, each after its key. -/
def writeFields : List (String × Value) → List String
  | [] => []
  | (key, value) :: rest => (stringText key ++ ": " ++ write value) :: writeFields rest

end

end BlockDiagram.Json
