import BlockDiagram.Text.Blank
import BlockDiagram.Text.Case
import BlockDiagram.Value

/-!
# Block kinds, connection types and directions

Each kind of block knows the first segment of its ids, the size of its box and whether its blocks
carry a type.
-/

namespace BlockDiagram

/-- The kinds of configuration blocks. -/
inductive Kind where
  | resource
  | dataSource
  | moduleCall
  | inputVariable
  | outputValue
deriving DecidableEq, Repr

namespace Kind

/-- All kinds, in the order in which they are listed. -/
def all : List Kind := [resource, dataSource, moduleCall, inputVariable, outputValue]

def key : Kind → String
  | resource => "resource"
  | dataSource => "data"
  | moduleCall => "module"
  | inputVariable => "variable"
  | outputValue => "output"

/-- The first segment of the ids of a kind. -/
def root : Kind → String
  | inputVariable => "var"
  | kind => kind.key

/-- The width of a box that names none. -/
def defaultWidth : Kind → Int
  | resource => 180
  | dataSource => 180
  | moduleCall => 200
  | inputVariable => 150
  | outputValue => 150

/-- The height of a box that names none. -/
def defaultHeight : Kind → Int
  | resource => 80
  | dataSource => 70
  | moduleCall => 100
  | inputVariable => 60
  | outputValue => 60

/-- Whether blocks of a kind carry a type. -/
def isTyped : Kind → Bool
  | resource => true
  | dataSource => true
  | _ => false

/-- The kind that a text names by keyword or by id segment, whatever its case and the white space
around it. -/
def ofText? (s : String) : Option Kind :=
  let word := Text.lowered (Text.trimmed s)
  all.find? fun kind => word == kind.key || word == kind.root

theorem ofText?_key (kind : Kind) : ofText? kind.key = some kind := by
  cases kind <;> decide +kernel

/-- The text of a name or type that may be missing. -/
def nameText : Option String → String
  | some s => s
  | none => "None"

/-- The id of a block: its kind's segment, its type if the kind has types, and its name. -/
def nodeId (kind : Kind) (name : Option String) (type : Option String) : String :=
  if kind.isTyped then kind.root ++ "." ++ nameText type ++ "." ++ nameText name
  else kind.root ++ "." ++ nameText name

/-- The label of a block that names none: its id, without the first segment for a resource. -/
def defaultLabel (kind : Kind) (name : Option String) (type : Option String) : String :=
  match kind with
  | resource => nameText type ++ "." ++ nameText name
  | kind => kind.nodeId name type

end Kind

/-- The types of connections. -/
inductive EdgeType where
  | dependsOn
  | reference
deriving DecidableEq, Repr

namespace EdgeType

/-- All types, in the order in which they are listed. -/
def all : List EdgeType := [dependsOn, reference]

def key : EdgeType → String
  | dependsOn => "depends_on"
  | reference => "reference"

def ofValue? (value : Value) : Option EdgeType :=
  all.find? fun type => value.isText type.key

theorem ofValue?_key (type : EdgeType) : ofValue? (.text type.key) = some type := by
  cases type <;> rfl

end EdgeType

/-- The directions in which a drawing advances. -/
inductive Direction where
  | leftToRight
  | topToBottom
  | rightToLeft
  | bottomToTop
deriving DecidableEq, Repr

namespace Direction

/-- All directions, in the order in which they are listed. -/
def all : List Direction := [leftToRight, topToBottom, rightToLeft, bottomToTop]

def key : Direction → String
  | leftToRight => "LR"
  | topToBottom => "TB"
  | rightToLeft => "RL"
  | bottomToTop => "BT"

/-- Whether ranks lie side by side. -/
def isHorizontal : Direction → Bool
  | leftToRight => true
  | rightToLeft => true
  | _ => false

/-- Whether the first rank lies at the far end. -/
def isReversed : Direction → Bool
  | rightToLeft => true
  | bottomToTop => true
  | _ => false

/-- The direction that a text names, whatever its case. -/
def ofText? (s : String) : Option Direction :=
  let word := Text.raised s
  all.find? fun direction => word == direction.key

theorem ofText?_key (direction : Direction) : ofText? direction.key = some direction := by
  cases direction <;> decide +kernel

end Direction

end BlockDiagram
