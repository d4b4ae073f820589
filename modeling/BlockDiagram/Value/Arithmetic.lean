import BlockDiagram.Text.Split
import BlockDiagram.Value

/-!
# Arithmetic on values

Sizes and spacings are values that nobody has checked, so arithmetic on them can fail. Whole
numbers are computed exactly; a whole number meeting a floating-point one is rounded first; halving
a whole number gives a floating-point one. Texts and lists can be joined and repeated.

* `add_int`, `times_int`: on whole numbers the operations are those of the integers.
* `Fault.message`: the wording of each failure.
-/

namespace BlockDiagram

namespace Value

/-- Why an operation on values has no result. -/
inductive Fault where
  /-- An operator between types that it does not join. -/
  | unsupported (operator left right : String)
  /-- Something other than a text or list put behind one. -/
  | notConcatenable (left right : String)
  /-- An order between types that have none. -/
  | unordered (operator left right : String)
  /-- A whole number too large to be rounded to a floating-point one. -/
  | tooLarge
  /-- A whole number whose half is too large. -/
  | halfTooLarge
  /-- A number with no nearest whole number. -/
  | unbounded (cause : Binary64.Unbounded)
deriving DecidableEq, Repr

def Fault.message : Fault → String
  | unsupported operator left right =>
    "unsupported operand type(s) for " ++ operator ++ ": '" ++ left ++ "' and '" ++ right ++ "'"
  | notConcatenable left right =>
    "can only concatenate " ++ left ++ " (not \"" ++ right ++ "\") to " ++ left
  | unordered operator left right =>
    "'" ++ operator ++ "' not supported between instances of '" ++ left ++ "' and '" ++ right
      ++ "'"
  | tooLarge => "int too large to convert to float"
  | halfTooLarge => "integer division result too large for a float"
  | unbounded .nan => "cannot convert float NaN to integer"
  | unbounded .infinite => "cannot convert float infinity to integer"

/-! ## Numbers -/

namespace Number

def toValue : Number → Value
  | whole n => .int n
  | real x => .float x

def toReal : Number → Except Fault Binary64
  | whole n => match Binary64.ofInt? n with
    | some x => .ok x
    | none => .error .tooLarge
  | real x => .ok x

/-- An operation on two numbers: exact on whole ones, otherwise rounded. -/
def combine (exact : Int → Int → Int) (rounded : Binary64 → Binary64 → Binary64) :
    Number → Number → Except Fault Number
  | whole m, whole n => .ok (.whole (exact m n))
  | x, y => do
    let left ← x.toReal
    let right ← y.toReal
    return .real (rounded left right)

/-- Half a number, as a floating-point one. -/
def half : Number → Except Fault Number
  | whole n => match Binary64.halfOfInt? n with
    | some x => .ok (.real x)
    | none => .error .halfTooLarge
  | real x => .ok (.real x.half)

/-- The nearest whole number, a half going to the even neighbour. -/
def round : Number → Except Fault Int
  | whole n => .ok n
  | real x => match x.round? with
    | .ok n => .ok n
    | .error cause => .error (.unbounded cause)

end Number

/-! ## Values -/

/-- The sum of two numbers, or two texts or lists joined. -/
def add (v w : Value) : Except Fault Value :=
  match v.number?, w.number? with
  | some x, some y => do return (← Number.combine (· + ·) Binary64.add x y).toValue
  | _, _ =>
    match v, w with
    | text s, text t => .ok (text (s ++ t))
    | list xs, list ys => .ok (list (xs ++ ys))
    | text _, w => .error (.notConcatenable "str" w.typeName)
    | list _, w => .error (.notConcatenable "list" w.typeName)
    | v, w => .error (.unsupported "+" v.typeName w.typeName)

/-- The difference of two numbers. -/
def sub (v w : Value) : Except Fault Value :=
  match v.number?, w.number? with
  | some x, some y => do return (← Number.combine (· - ·) Binary64.sub x y).toValue
  | _, _ => .error (.unsupported "-" v.typeName w.typeName)

/-- A value taken a whole number of times; a text or list is repeated. -/
def times (v : Value) (count : Int) : Except Fault Value :=
  match v.number? with
  | some x => do return (← Number.combine (· * ·) Binary64.mul x (.whole count)).toValue
  | none =>
    match v with
    | text s => .ok (text (Text.repeated count s))
    | list items => .ok (list (List.replicate count.toNat items).flatten)
    | v => .error (.unsupported "*" v.typeName "int")

/-- A whole number of times a value. -/
def timesLeft (count : Int) (v : Value) : Except Fault Value :=
  match v.times count with
  | .error (.unsupported operator left right) => .error (.unsupported operator right left)
  | result => result

def half (v : Value) : Except Fault Value :=
  match v.number? with
  | some x => do return (← x.half).toValue
  | none => .error (.unsupported "/" v.typeName "int")

/-- The whole number nearest to a number. -/
def round (v : Value) : Except Fault Int :=
  match v.number? with
  | some x => x.round
  | none => .error (.unsupported "round" v.typeName "int")

mutual

/-- Whether two values are equal: scalars by value, lists item by item, records key by key. -/
def equal : Value → Value → Bool
  | list xs, list ys => equalItems xs ys
  | record fields, record others => fields.length == others.length && equalFields fields others
  | v, w => v.same w

def equalItems : List Value → List Value → Bool
  | [], [] => true
  | x :: xs, y :: ys => equal x y && equalItems xs ys
  | _, _ => false

/-- Whether every field has an equal one among others. -/
def equalFields : List (String × Value) → List (String × Value) → Bool
  | [], _ => true
  | (key, v) :: rest, others =>
    (match Table.get? others key with
      | some w => equal v w
      | none => false) && equalFields rest others

end

instance : BEq Value := ⟨equal⟩

/-- The failure of a comparison. With the operands exchanged the failure names them as they were
given. -/
def incomparable (operator : String) (exchanged : Bool) (v w : Value) : Fault :=
  if exchanged then .unordered operator w.typeName v.typeName
  else .unordered operator v.typeName w.typeName

mutual

/-- Whether one value comes before another, where the two have an order: numbers by value, texts
by code points, lists by the first items that differ. -/
def before (operator : String) (exchanged : Bool) : Value → Value → Except Fault Bool
  | list xs, list ys => beforeItems operator exchanged xs ys
  | v, w =>
    match v.number?, w.number?, v.text?, w.text? with
    | some x, some y, _, _ => .ok (x.lt y)
    | _, _, some s, some t => .ok (decide (s < t))
    | _, _, _, _ => .error (incomparable operator exchanged v w)

/-- Whether one list comes before another. -/
def beforeItems (operator : String) (exchanged : Bool) :
    List Value → List Value → Except Fault Bool
  | [], ys => .ok (!ys.isEmpty)
  | _ :: _, [] => .ok false
  | x :: xs, y :: ys =>
    if equal x y then beforeItems operator exchanged xs ys else before operator exchanged x y

end

/-- Whether one value is less than another. -/
def lessThan (v w : Value) : Except Fault Bool := before "<" false v w

def greaterThan (v w : Value) : Except Fault Bool := before ">" true w v

/-- The sum of values, from zero. -/
def sum (values : List Value) : Except Fault Value :=
  values.foldlM add (int 0)

/-- The first greatest of a value and further ones. -/
def greatest (first : Value) (others : List Value) : Except Fault Value :=
  others.foldlM (fun best next => do return if ← next.greaterThan best then next else best) first

@[simp] theorem add_int (m n : Int) : add (int m) (int n) = .ok (int (m + n)) := rfl

@[simp] theorem sub_int (m n : Int) : sub (int m) (int n) = .ok (int (m - n)) := rfl

@[simp] theorem times_int (m n : Int) : times (int m) n = .ok (int (m * n)) := rfl

@[simp] theorem round_int (n : Int) : round (int n) = .ok n := rfl

end Value

end BlockDiagram
