import BlockDiagram.Block.Attribute
import BlockDiagram.Diagram

/-!
# Blocks in configuration text

Every kind of node has a block of its own: a header with the labels in quotes and a body. Resources,
data sources and modules write all their attributes; variables and outputs write the ones they
know. Attributes whose key starts with an underscore are private, and dependencies come last.

* `Node.blockText`: the block of a node, or why it has none.
-/

namespace BlockDiagram

namespace Block

def blockOf (header : String) (lines : List String) : String :=
  if lines.isEmpty then header ++ " \x7b\n\x7d"
  else header ++ " \x7b\n" ++ Text.join "\n" lines ++ "\n\x7d"

/-- The failure of a node that has no block. -/
def refuse {α : Type} (cause : Unwritable) : Except Error α := .error (.unwritable cause)

def attributesOf (node : Node) : Except Error (List (String × Value)) :=
  match node.config.orElse (.record []) with
  | .record fields => .ok fields
  | _ => refuse (.config node.id)

/-- Whether an attribute belongs into the body: it is neither private, nor the dependencies, nor
written elsewhere. -/
def isWritten (elsewhere : List String) (key : String) : Bool :=
  !("_".toList.isPrefixOf key.toList) && key != "depends_on" && !elsewhere.contains key

def bodyLines (fields : List (String × Value)) (elsewhere : List String) :
    Except Error (List String) :=
  attributeLines (fields.filter fun field => isWritten elsewhere field.1) 1

def dependencyLine (node : Node) (entry : Value) : Except Error String :=
  match entry with
  | .text s =>
    if Text.isBlankText s then refuse (.dependency node.id)
    else .ok (indent 2 ++ Reference.address (Text.trimmed s) ++ ",")
  | _ => refuse (.dependency node.id)

/-- The dependencies of a node, if it lists any. -/
def dependencyLines (node : Node) (fields : List (String × Value)) : Except Error (List String) :=
  let given := (Value.record fields).field "depends_on"
  if given.isTruthy then
    match given with
    | .list entries => do
      let lines ← entries.mapM (dependencyLine node)
      return [indent 1 ++ "depends_on = ["] ++ lines ++ [indent 1 ++ "]"]
    | _ => refuse (.dependencies node.id)
  else .ok []

/-- The name of a node; an empty one is none. -/
def nameOf (node : Node) : Except Error String :=
  match node.name with
  | some name => if name = "" then refuse (.name node.kind node.id) else .ok name
  | none => refuse (.name node.kind node.id)

/-- The type and name of a node of a typed kind; an empty one is none. -/
def typeAndNameOf (node : Node) : Except Error (String × String) :=
  let name := node.name.getD ""
  let type := node.resourceType.getD ""
  if name = "" then refuse (.typeOrName node.kind node.id "name")
  else if type = "" then refuse (.typeOrName node.kind node.id "resourceType")
  else .ok (type, name)

def line (key text : String) : String := indent 1 ++ key ++ " = " ++ text

/-- The line of a description, if one is given. -/
def descriptionLines (config : Value) : List String :=
  let given := config.field "description"
  if given.isTruthy then [line "description" (quote given.shown)] else []

/-! ## Kinds -/

/-- The block of a resource or data source. -/
def typedBlock (node : Node) : Except Error String := do
  let (type, name) ← typeAndNameOf node
  let fields ← attributesOf node
  let body ← bodyLines fields []
  let dependencies ← dependencyLines node fields
  return blockOf (node.kind.key ++ " " ++ quote type ++ " " ++ quote name) (body ++ dependencies)

/-- The block of a module; without a source it is taken from a directory of its name. -/
def moduleBlock (node : Node) : Except Error String := do
  let name ← nameOf node
  let fields ← attributesOf node
  let origin := ((Value.record fields).field "source").orElse (.text ("./modules/" ++ name))
  let first := line "source" (← literalLine origin 1)
  let body ← bodyLines fields ["source"]
  let dependencies ← dependencyLines node fields
  return blockOf ("module " ++ quote name) (first :: body ++ dependencies)

/-- The line of a variable's type, if one is given. -/
def typeLines (node : Node) (config : Value) : Except Error (List String) :=
  let given := config.field "type"
  if given.isTruthy then
    match given with
    | .text expression => .ok [line "type" (Reference.wholeOr expression expression)]
    | _ => refuse (.variableType node.id)
  else .ok []

/-- The line of a variable's default, if one is given. -/
def defaultLines (fields : List (String × Value)) : Except Error (List String) :=
  match Table.get? fields "default" with
  | some value => do return [line "default" (← literalLine value 1)]
  | none => .ok []

/-- The line of a flag, if it is a truth value. -/
def flagLines (config : Value) (key : String) : List String :=
  match config.field key with
  | .bool b => [line key (if b then "true" else "false")]
  | _ => []

def validationLines (node : Node) (value : Value) : Except Error (List String) :=
  match value with
  | .record fields => do
    let body ← attributeLines fields 2
    return [indent 1 ++ "validation \x7b"] ++ body ++ [indent 1 ++ "\x7d"]
  | _ => refuse (.validation node.id)

/-- The validations of a variable: one, or a list of them. -/
def allValidationLines (node : Node) (config : Value) : Except Error (List String) :=
  let given := config.field "validation"
  if given.isTruthy then
    match given with
    | .record fields => validationLines node (.record fields)
    | .list values => do return (← values.mapM (validationLines node)).flatten
    | .text _ => refuse (.validation node.id)
    | _ => .error (.defect .wrongType)
  else .ok []

def variableBlock (node : Node) : Except Error String := do
  let name ← nameOf node
  let fields ← attributesOf node
  let config := Value.record fields
  let type ← typeLines node config
  let default ← defaultLines fields
  let validations ← allValidationLines node config
  let lines := descriptionLines config ++ type ++ default ++ flagLines config "sensitive"
    ++ flagLines config "nullable" ++ validations
  return blockOf ("variable " ++ quote name) lines

/-- Whether an output is sensitive: a text says so by the word, anything else by counting as
given. -/
def isSensitive (given : Value) : Bool :=
  match given with
  | .text s => Text.lowered (Text.trimmed s) == "true"
  | value => value.isTruthy

/-- The line of an output's sensitivity, if one is given. -/
def sensitivityLines (config : Value) : List String :=
  let given := config.field "sensitive"
  if given.isNull then []
  else [line "sensitive" (if isSensitive given then "true" else "false")]

def outputBlock (node : Node) : Except Error String := do
  let name ← nameOf node
  let fields ← attributesOf node
  let config := Value.record fields
  let first := line "value" (← literalLine (config.field "value") 1)
  let dependencies ← dependencyLines node fields
  let lines := first :: descriptionLines config ++ sensitivityLines config ++ dependencies
  return blockOf ("output " ++ quote name) lines

end Block

def Node.blockText (node : Node) : Except Error String :=
  match node.kind with
  | .resource => Block.typedBlock node
  | .dataSource => Block.typedBlock node
  | .moduleCall => Block.moduleBlock node
  | .inputVariable => Block.variableBlock node
  | .outputValue => Block.outputBlock node

end BlockDiagram
