import BlockDiagram.Binary64
import BlockDiagram.Table

/-!
# Values

A value is what a configuration attribute, a payload field or a model's reply may hold. Whole
numbers are unbounded and stay apart from floating-point ones, and a record keeps the order of its
fields.

* `Value.isTruthy`: false of null, false, zero and whatever is empty.
* `Value.same`: equality of scalars by value, so that `1`, `1.0` and true agree.
-/

namespace BlockDiagram

/-- A configuration or payload value. -/
inductive Value where
  | null
  | bool (b : Bool)
  | int (n : Int)
  | float (x : Binary64)
  | text (s : String)
  | list (items : List Value)
  | record (fields : List (String × Value))
deriving Repr

namespace Value

instance : Inhabited Value := ⟨null⟩

instance : Coe String Value := ⟨text⟩

/-- Whether a value counts as given: null, false, zero and empty texts, lists and records do
not. -/
def isTruthy : Value → Bool
  | null => false
  | bool b => b
  | int n => n != 0
  | float x => !x.isZero
  | text s => s != ""
  | list items => !items.isEmpty
  | record fields => !fields.isEmpty

/-- The value, or another one in place of a value that does not count as given. -/
def orElse (value other : Value) : Value := if value.isTruthy then value else other

/-- The entry of a record under a key; null when there is none, or no record. -/
def field : Value → String → Value
  | record fields, key => (Table.get? fields key).getD null
  | _, _ => null

/-- The name of a value's type, as messages give it. -/
def typeName : Value → String
  | null => "NoneType"
  | bool _ => "bool"
  | int _ => "int"
  | float _ => "float"
  | text _ => "str"
  | list _ => "list"
  | record _ => "dict"

def isNull : Value → Bool
  | null => true
  | _ => false

def isText (value : Value) (s : String) : Bool :=
  match value with
  | text t => t == s
  | _ => false

def text? : Value → Option String
  | text s => some s
  | _ => none

theorem eq_text_of_text? {value : Value} {s : String} (h : value.text? = some s) :
    value = text s := by
  cases value with
  | text t => exact congrArg text (Option.some.inj h)
  | _ => cases h

def isRecord : Value → Bool
  | record _ => true
  | _ => false

/-- Whether a value can be a key: lists and records cannot. -/
def isKey : Value → Bool
  | list _ => false
  | record _ => false
  | _ => true

/-- A number of either sort. -/
inductive Number where
  | whole (n : Int)
  | real (x : Binary64)
deriving DecidableEq, Repr

/-- The number that a value is, or counts as: a truth value counts as one or zero. -/
def number? : Value → Option Number
  | bool b => some (.whole (if b then 1 else 0))
  | int n => some (.whole n)
  | float x => some (.real x)
  | _ => none

/-- Whether a value is a number proper; truth values are not. -/
def isNumber : Value → Bool
  | int _ => true
  | float _ => true
  | _ => false

namespace Number

/-- Whether one number is less than another, compared exactly. -/
def lt : Number → Number → Bool
  | whole m, whole n => decide (m < n)
  | whole m, real y =>
    match y with
    | .nan => false
    | .infinity negative => !negative
    | y => decide ((m : Rat) < y.value)
  | real x, whole n =>
    match x with
    | .nan => false
    | .infinity negative => negative
    | x => decide (x.value < (n : Rat))
  | real x, real y => x.lt y

/-- Whether two numbers have one value, compared exactly. -/
def eq : Number → Number → Bool
  | whole m, whole n => decide (m = n)
  | whole m, real y => y.isFinite && decide ((m : Rat) = y.value)
  | real x, whole n => x.isFinite && decide (x.value = (n : Rat))
  | real x, real y => x.eq y

end Number

/-- Whether two scalars are the same key. Numbers agree by value, a truth value with its number;
lists and records are no keys. -/
def same (v w : Value) : Bool :=
  match v, w with
  | null, null => true
  | text s, text t => s == t
  | v, w =>
    match v.number?, w.number? with
    | some x, some y => x.eq y
    | _, _ => false

/-- Whether two scalars are the same key, where what is not a number is the same as itself. -/
def identical (v w : Value) : Bool :=
  match v, w with
  | float .nan, float .nan => true
  | v, w => v.same w

@[simp] theorem identical_text (s t : String) : identical (text s) (text t) = (s == t) := rfl

@[simp] theorem same_text (s t : String) : same (text s) (text t) = (s == t) := rfl

theorem same_text_iff {v : Value} {s : String} : v.same (text s) = true ↔ v = text s := by
  cases v <;> simp [same, number?]

theorem text_same_iff {s : String} {v : Value} : (text s).same v = true ↔ v = text s := by
  cases v with
  | text t => rw [same_text, beq_iff_eq, text.injEq, eq_comm]
  | _ => simp [same, number?]

theorem identical_text_iff {v : Value} {s : String} :
    v.identical (text s) = true ↔ v = text s := by
  cases v with
  | float x => cases x <;> simp [identical, same, number?]
  | _ => simp [identical, same, number?]

end Value

end BlockDiagram
