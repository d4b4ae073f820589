/-!
# Binary floating-point numbers of 64 bits

A finite number is its exact rational value, so every operation is the exact operation followed by
one rounding to the nearest representable value, ties to the even multiple of the unit. Zero has a
sign of its own: `rational 0` is the positive zero.

* `Binary64.ofRat`: the rounding, with overflow to an infinity and underflow to a signed zero.
* `Binary64.round?`: the nearest whole number, a half going to the even neighbour.
-/

namespace BlockDiagram

/-- A binary64 number. Every rational value held here is representable. -/
inductive Binary64 where
  | nan
  | infinity (negative : Bool)
  | negativeZero
  | rational (value : Rat)
deriving DecidableEq, Repr

namespace Binary64

/-! ## Powers and rounding of rationals -/

/-- The power of a whole base with any whole exponent. -/
def power (base : Nat) (exponent : Int) : Rat :=
  if 0 ≤ exponent then ((base.pow exponent.toNat : Nat) : Rat)
  else mkRat 1 (base.pow (-exponent).toNat)

/-- The distance of a rational from zero. -/
def magnitude (q : Rat) : Rat := if q < 0 then -q else q

/-- The exponent `e` with `2 ^ e ≤ |q| < 2 ^ (e + 1)`, for `q` other than zero. -/
def binaryExponent (q : Rat) : Int :=
  let guess : Int := (q.num.natAbs.log2 : Int) - (q.den.log2 : Int)
  if power 2 guess ≤ magnitude q then guess else guess - 1

/-- The nearest whole number; of two equally near ones the even one. -/
def roundHalfEven (q : Rat) : Int :=
  let below := q.floor
  let part := q - (below : Rat)
  if part < mkRat 1 2 then below
  else if mkRat 1 2 < part then below + 1
  else if below % 2 = 0 then below
  else below + 1

/-- The distance between neighbouring numbers around `q`: 53 significant bits, and never finer
than the least positive number. -/
def unitAt (q : Rat) : Rat :=
  let exponent := binaryExponent q - 52
  power 2 (if exponent < -1074 then -1074 else exponent)

/-- The nearest multiple of the unit at `q`, as if there were no largest number. -/
def nearest (q : Rat) : Rat :=
  let unit := unitAt q
  (roundHalfEven (q / unit) : Rat) * unit

/-- The first value past the largest finite number. -/
def limit : Rat := power 2 1024

/-- The number nearest to a rational. -/
def ofRat (q : Rat) : Binary64 :=
  let rounded := nearest q
  if limit ≤ rounded then .infinity false
  else if rounded ≤ -limit then .infinity true
  else if rounded = 0 ∧ q < 0 then .negativeZero
  else .rational rounded

/-- The number nearest to a whole number, if that is finite. -/
def ofInt? (n : Int) : Option Binary64 :=
  match ofRat n with
  | .infinity _ => none
  | x => some x

/-- Half a whole number, if that is finite. -/
def halfOfInt? (n : Int) : Option Binary64 :=
  match ofRat ((n : Rat) / 2) with
  | .infinity _ => none
  | x => some x

/-! ## Arithmetic -/

/-- Whether the sign bit of a number is set. -/
def isNegative : Binary64 → Bool
  | nan => false
  | infinity negative => negative
  | negativeZero => true
  | rational q => decide (q < 0)

/-- Whether a number is zero, of either sign. -/
def isZero : Binary64 → Bool
  | negativeZero => true
  | rational q => decide (q = 0)
  | _ => false

/-- The exact value of a finite number; zero for the others. -/
def value : Binary64 → Rat
  | rational q => q
  | _ => 0

def zero (negative : Bool) : Binary64 := if negative then negativeZero else rational 0

/-- The number with the sign turned. -/
def neg : Binary64 → Binary64
  | nan => nan
  | infinity negative => infinity !negative
  | negativeZero => rational 0
  | rational q => if q = 0 then negativeZero else rational (-q)

/-- The sum. Opposite infinities have none; a sum of zeros is negative when both are. -/
def add : Binary64 → Binary64 → Binary64
  | nan, _ => nan
  | _, nan => nan
  | infinity s, infinity t => if s = t then infinity s else nan
  | infinity s, _ => infinity s
  | _, infinity t => infinity t
  | negativeZero, negativeZero => negativeZero
  | x, y => ofRat (x.value + y.value)

def sub (x y : Binary64) : Binary64 := x.add y.neg

/-- The product. An infinity times zero has none. -/
def mul (x y : Binary64) : Binary64 :=
  let negative := x.isNegative != y.isNegative
  match x, y with
  | nan, _ => nan
  | _, nan => nan
  | infinity _, other => if other.isZero then nan else infinity negative
  | other, infinity _ => if other.isZero then nan else infinity negative
  | x, y =>
    if x.isZero || y.isZero then zero negative else ofRat (x.value * y.value)

def half : Binary64 → Binary64
  | rational q => ofRat (q / 2)
  | x => x

/-! ## Order -/

/-- Whether one number is less than another; never when one of them is not a number. -/
def lt : Binary64 → Binary64 → Bool
  | nan, _ => false
  | _, nan => false
  | infinity s, infinity t => s && !t
  | infinity s, _ => s
  | _, infinity t => !t
  | x, y => decide (x.value < y.value)

/-- Whether two numbers have the same value: zeros agree, and not a number agrees with nothing. -/
def eq : Binary64 → Binary64 → Bool
  | nan, _ => false
  | _, nan => false
  | infinity s, infinity t => s == t
  | infinity _, _ => false
  | _, infinity _ => false
  | x, y => decide (x.value = y.value)

def isFinite : Binary64 → Bool
  | nan => false
  | infinity _ => false
  | _ => true

/-! ## Whole numbers -/

/-- Why a number has no nearest whole number. -/
inductive Unbounded where
  | nan
  | infinite
deriving DecidableEq, Repr

/-- The nearest whole number, a half going to the even neighbour. -/
def round? : Binary64 → Except Unbounded Int
  | nan => .error .nan
  | infinity _ => .error .infinite
  | negativeZero => .ok 0
  | rational q => .ok (roundHalfEven q)

end Binary64

end BlockDiagram
