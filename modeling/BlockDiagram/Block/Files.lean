import BlockDiagram.Block
import BlockDiagram.Text.Order

/-!
# Configuration files

The blocks of a diagram go into three files by kind; a file without blocks is left out, and one
node without a block leaves no file at all. The main file may begin with a header that states the
version and the providers.

* `Diagram.files`: the files of a diagram by name.
* `Diagram.blockAt`: the block of one node.
* `Files.changes`: the files that differ between two sets.
-/

namespace BlockDiagram

namespace Files

/-- The files and the kinds of blocks that go into each. -/
def plan : List (String × List Kind) := [
  ("main", [.resource, .dataSource, .moduleCall]),
  ("variables", [.inputVariable]),
  ("outputs", [.outputValue])]

/-! ## Header -/

/-- The provider that a type belongs to: what stands before the first underscore. -/
def provider (type : String) : String := String.ofList (type.toList.takeWhile (· != '_'))

/-- The provider of a node, if the node has a type. -/
def nodeProvider? (node : Node) : Option String :=
  match node.resourceType with
  | some type => if node.kind.isTyped && type != "" then some (provider type) else none
  | none => none

/-- The providers of a diagram in order of name. -/
def providers (d : Diagram) : List String :=
  Text.sortedNames (d.nodes.values.filterMap nodeProvider?)

def providerLines (name : String) : List String := [
  "    " ++ name ++ " = \x7b",
  "      source = " ++ Block.quote ("hashicorp/" ++ name),
  "    \x7d"]

def header (d : Diagram) : String :=
  let names := providers d
  let required := if names.isEmpty then [] else
    ["", "  required_providers \x7b"] ++ names.flatMap providerLines ++ ["  \x7d"]
  Text.join "\n" (["terraform \x7b", "  required_version = " ++ Block.quote ">= 1.0.0"]
    ++ required ++ ["\x7d"])

/-! ## Files -/

def ofBlocks (blocks : List String) : String := Text.join "\n\n" blocks ++ "\n"

/-- The blocks of the nodes of some kinds. -/
def blocks (d : Diagram) (kinds : List Kind) : Except Error (List String) :=
  (kinds.flatMap d.nodesOf).mapM Node.blockText

/-- One file of a diagram; none without blocks. -/
def file (d : Diagram) (extension : String) (withHeader : Bool) (stem : String)
    (kinds : List Kind) : Except Error (Table String) := do
  let top := if withHeader && stem == "main" then [header d] else []
  let found := top ++ (← blocks d kinds)
  return if found.isEmpty then [] else [(stem ++ "." ++ extension, ofBlocks found)]

end Files

def Diagram.files (d : Diagram) (extension : String) (withHeader : Bool) :
    Except Error (Table String) := do
  let found ← Files.plan.mapM fun (stem, kinds) => Files.file d extension withHeader stem kinds
  return found.flatten

/-- The block of one node, of certain kinds if any are named. No value but a text is the id of a
node. -/
def Diagram.blockAt (d : Diagram) (id : Value) (kinds : List Kind) : Except Error String :=
  let absent : Except Error String := .error (.missing (.block kinds.head? id))
  match id.text?.bind d.nodes.get? with
  | some node => if kinds.isEmpty || kinds.contains node.kind then node.blockText else absent
  | none => if id.isKey then absent else .error (.defect .wrongType)

/-! ## Changes -/

namespace Files

/-- A file that is not the same in two sets: its content in each, empty where it is absent. -/
structure Change (α : Type) where
  before : α
  after : α
  isAdded : Bool
  isRemoved : Bool
deriving DecidableEq, Repr

/-- The files that differ between two sets, in order of name. -/
def changes {α : Type} [BEq α] (empty : α) (earlier later : Table α) : Table (Change α) :=
  (Text.sortedNames (earlier.keys ++ later.keys)).filterMap fun name =>
    let before := (earlier.get? name).getD empty
    let after := (later.get? name).getD empty
    if before == after then none
    else some (name, ⟨before, after, !earlier.has name, !later.has name⟩)

def Change.report {α : Type} (content : α → Value) (change : Change α) : Value :=
  .record [("original", content change.before), ("generated", content change.after),
    ("added", .bool change.isAdded), ("removed", .bool change.isRemoved)]

end Files

end BlockDiagram
