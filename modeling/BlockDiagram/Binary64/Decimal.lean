import BlockDiagram.Binary64

/-!
# Decimal texts of numbers

Writing gives the fewest significant digits that read back as the same number, and of those the
nearest to it, an even last digit deciding between two. Positional notation is used for decimal
exponents from -4 to 15 and always shows a fraction; outside, an exponent of at least two digits
with its sign is written.

* `Binary64.ofDecimal`: reading, rounded once.
* `Binary64.shortest`: the digits.
* `Binary64.toText`: the text.
-/

namespace BlockDiagram.Binary64

/-! ## Reading -/

/-- How far from the decimal point a digit can stand and still matter: beyond it every number
overflows or vanishes. -/
def decimalReach : Int := 400

/-- The number nearest to `± digits * 10 ^ exponent`. -/
def ofDecimal (negative : Bool) (digits : Nat) (exponent : Int) : Binary64 :=
  let leading := ((Nat.repr digits).length : Int) + exponent
  if digits = 0 then zero negative
  else if decimalReach < leading then infinity negative
  else if leading < -decimalReach then zero negative
  else
    let size := (digits : Rat) * power 10 exponent
    ofRat (if negative then -size else size)

/-! ## Shortest digits -/

/-- The values that round to a given positive number: the ends count when they are closed. -/
structure Basin where
  low : Rat
  high : Rat
  closed : Bool

/-- Whether a value rounds to the number of the basin. -/
def Basin.has (basin : Basin) (q : Rat) : Bool :=
  if basin.closed then decide (basin.low ≤ q) && decide (q ≤ basin.high)
  else decide (basin.low < q) && decide (q < basin.high)

/-- The basin of a positive finite number. Below a power of two the neighbours are twice as
dense, unless the number is among the least ones. -/
def basin (q : Rat) : Basin :=
  let unit := unitAt q
  let multiple := roundHalfEven (q / unit)
  let below := if multiple = 4503599627370496 ∧ power 2 (-1074) < unit then unit / 4 else unit / 2
  ⟨q - below, q + unit / 2, multiple % 2 = 0⟩

/-- The exponent `e` with `10 ^ e ≤ q < 10 ^ (e + 1)`, for positive `q`. -/
def decimalExponent (q : Rat) : Int :=
  let guess : Int := ((Nat.repr q.num.natAbs).length : Int) - ((Nat.repr q.den).length : Int)
  if power 10 guess ≤ q then guess else guess - 1

/-- The multiple of `10 ^ exponent` nearest to `q` that lies in the basin, by its factor; of two
equally near ones that with the even factor. -/
def onGrid? (q : Rat) (room : Basin) (exponent : Int) : Option Nat :=
  let grid := power 10 exponent
  let below := (q / grid).floor.toNat
  let lower := (below : Rat) * grid
  let upper := ((below + 1 : Nat) : Rat) * grid
  let nearer := decide (q - lower < upper - q) || decide (q - lower = upper - q ∧ below % 2 = 0)
  if room.has lower && (nearer || !room.has upper) then some below
  else if room.has upper then some (below + 1)
  else none

/-- A decimal number: `digits * 10 ^ exponent`. -/
structure Decimal where
  digits : Nat
  exponent : Int
deriving DecidableEq, Repr

/-- The shortest decimal number that reads back as the positive number `q`. Seventeen digits
always do. -/
def shortest (q : Rat) : Decimal :=
  let room := basin q
  let top := decimalExponent q
  let found := (List.range 17).findSome? fun (more : Nat) =>
    (onGrid? q room (top - more)).map fun digits => Decimal.mk digits (top - more)
  found.getD ⟨(q / power 10 (top - 16)).floor.toNat, top - 16⟩

/-! ## Writing -/

/-- Digits without the zeros at their end. -/
def withoutTrailingZeros (digits : List Char) : List Char :=
  (digits.reverse.dropWhile (· == '0')).reverse

/-- The exponent part of a number's text: sign and at least two digits. -/
def exponentText (exponent : Int) : String :=
  let size := Nat.repr exponent.natAbs
  "e" ++ (if exponent < 0 then "-" else "+") ++ (if size.length < 2 then "0" ++ size else size)

/-- The text of significant digits with the first one before the point standing at
`10 ^ exponent`. -/
def layOut (digits : List Char) (exponent : Int) : String :=
  let places := digits.length
  if exponent < -4 ∨ 16 ≤ exponent then
    match digits with
    | [] => "0.0"
    | [only] => String.ofList [only] ++ exponentText exponent
    | first :: others => String.ofList (first :: '.' :: others) ++ exponentText exponent
  else if exponent < 0 then
    "0." ++ String.ofList (List.replicate (-exponent - 1).toNat '0' ++ digits)
  else
    let whole := exponent.toNat + 1
    if places ≤ whole then
      String.ofList (digits ++ List.replicate (whole - places) '0') ++ ".0"
    else
      String.ofList (digits.take whole) ++ "." ++ String.ofList (digits.drop whole)

/-- The text of a positive finite number. -/
def positiveText (q : Rat) : String :=
  let decimal := shortest q
  let digits := (Nat.repr decimal.digits).toList
  layOut (withoutTrailingZeros digits) (digits.length - 1 + decimal.exponent)

def toText : Binary64 → String
  | nan => "nan"
  | infinity negative => if negative then "-inf" else "inf"
  | negativeZero => "-0.0"
  | rational q =>
    if q = 0 then "0.0"
    else if q < 0 then "-" ++ positiveText (-q)
    else positiveText q

end BlockDiagram.Binary64
