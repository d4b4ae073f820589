/-!
# Text in bytes

Bytes are read as text in three encodings. In UTF-8 the bytes that begin no character, and those
that begin one but do not end it, are replaced: the longest beginning of a character, or else a
single byte, by one replacement character. UTF-16 and UTF-32 are read only where the bytes come out
even and no number lies beyond the last character; there one half of a pair is read as a character
of its own.

* `Text.ofUtf8`: a text of any bytes.
* `Text.ofUtf16?`, `Text.ofUtf32?`: a text of units of two and of four bytes.
-/

namespace BlockDiagram.Text

/-- The character in place of what stands for none. -/
def replacement : Char := Char.ofNat 0xfffd

/-! ## Halves of pairs -/

/-- Whether a unit of two bytes is the first of a pair. -/
def isLead (unit : Nat) : Bool := decide (0xd800 ≤ unit) && decide (unit < 0xdc00)

/-- Whether a unit of two bytes is the second of a pair. -/
def isTrail (unit : Nat) : Bool := decide (0xdc00 ≤ unit) && decide (unit < 0xe000)

/-- The character of a single unit. One half of a pair is no character; the private one whose number
is greater by 0x100000 stands for it, so that different halves stay apart. -/
def unitChar (unit : Nat) : Char :=
  Char.ofNat (if isLead unit || isTrail unit then 0x100000 + unit else unit)

def pairChar (lead trail : Nat) : Char :=
  Char.ofNat (0x10000 + (lead - 0xd800) * 0x400 + (trail - 0xdc00))

/-! ## UTF-8 -/

/-- A character of which some bytes have been read: its number so far, how many bytes are to come,
and between which bounds the next one lies. -/
structure Begun where
  number : Nat
  left : Nat
  least : Nat
  greatest : Nat
deriving DecidableEq, Repr

/-- What a byte begins: a character of its own, a longer one, or none. -/
def begin (byte : Nat) : List Char × Option Begun :=
  if byte < 0x80 then ([Char.ofNat byte], none)
  else if byte < 0xc2 then ([replacement], none)
  else if byte < 0xe0 then ([], some ⟨byte - 0xc0, 1, 0x80, 0xbf⟩)
  else if byte < 0xf0 then
    ([], some ⟨byte - 0xe0, 2, if byte = 0xe0 then 0xa0 else 0x80,
      if byte = 0xed then 0x9f else 0xbf⟩)
  else if byte < 0xf5 then
    ([], some ⟨byte - 0xf0, 3, if byte = 0xf0 then 0x90 else 0x80,
      if byte = 0xf4 then 0x8f else 0xbf⟩)
  else ([replacement], none)

/-- What one more byte makes of a character that has begun. A byte that does not continue it begins
anew. -/
def Begun.next (begun : Begun) (byte : Nat) : List Char × Option Begun :=
  if begun.least ≤ byte ∧ byte ≤ begun.greatest then
    let number := begun.number * 0x40 + (byte - 0x80)
    if begun.left = 1 then ([Char.ofNat number], none)
    else ([], some ⟨number, begun.left - 1, 0x80, 0xbf⟩)
  else
    let (chars, other) := begin byte
    (replacement :: chars, other)

/-- The text of the bytes after a beginning. -/
def ofUtf8From : Option Begun → List UInt8 → List Char
  | none, [] => []
  | some _, [] => [replacement]
  | begun, byte :: rest =>
    let (chars, after) := match begun with
      | none => begin byte.toNat
      | some begun => begun.next byte.toNat
    chars ++ ofUtf8From after rest

def ofUtf8 (bytes : List UInt8) : List Char := ofUtf8From none bytes

/-! ## UTF-16 and UTF-32 -/

/-- The number that bytes stand for, the last one first or the first one first. -/
def numberOf (lastFirst : Bool) (bytes : List UInt8) : Nat :=
  (if lastFirst then bytes.reverse else bytes).foldl (fun n byte => n * 0x100 + byte.toNat) 0

/-- The numbers of units of two bytes. -/
def units16? (lastFirst : Bool) : List UInt8 → Option (List Nat)
  | [] => some []
  | [_] => none
  | a :: b :: rest => do
    let others ← units16? lastFirst rest
    return numberOf lastFirst [a, b] :: others

/-- The numbers of units of four bytes. -/
def units32? (lastFirst : Bool) : List UInt8 → Option (List Nat)
  | [] => some []
  | a :: b :: c :: d :: rest => do
    let others ← units32? lastFirst rest
    return numberOf lastFirst [a, b, c, d] :: others
  | _ => none

/-- The text of units of two bytes. -/
def ofUnits16 : List Nat → List Char
  | [] => []
  | [unit] => [unitChar unit]
  | unit :: other :: rest =>
    if isLead unit && isTrail other then pairChar unit other :: ofUnits16 rest
    else unitChar unit :: ofUnits16 (other :: rest)

def ofUtf16? (lastFirst : Bool) (bytes : List UInt8) : Option (List Char) :=
  (units16? lastFirst bytes).map ofUnits16

def ofUtf32? (lastFirst : Bool) (bytes : List UInt8) : Option (List Char) := do
  let units ← units32? lastFirst bytes
  if units.any (0x10ffff < ·) then none
  return units.map unitChar

end BlockDiagram.Text
