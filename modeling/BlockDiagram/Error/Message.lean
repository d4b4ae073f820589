import BlockDiagram.Error

/-!
# Wording of failures

`Error.code?`, `Error.message` and `Error.details` are the report of a failure. A defect has
none.
-/

namespace BlockDiagram

open Text

def fieldDetail (field : String) : Value := .record [("field", .text field)]

/-- A detail that names a field and its allowed values. -/
def choiceDetail (field : String) (allowed : List String) : Value :=
  .record [("field", .text field), ("allowed", .list (allowed.map .text))]

def entryDetail (key value : String) : Value := .record [(key, .text value)]

/-- The name of an edge payload's field for an end. -/
def Endpoint.field : Endpoint → String
  | source => "source_id"
  | target => "target_id"

namespace Invalid

def message : Invalid → String
  | kind given => "Unrecognized node kind: " ++ given.quoted
  | configuration => "Parsed configuration must be a mapping"
  | sectionShape name _ => "Section '" ++ name ++ "' must be a mapping"
  | blocksShape name type => "Section '" ++ name ++ "." ++ type ++ "' must map names to blocks"
  | blockShape place _ => "Block '" ++ place ++ "' must be an attribute mapping"
  | payload => "Payload must be a mapping"
  | kindRequired => "Node kind is required"
  | nameRequired => "Node name is required"
  | typeRequired k => "A " ++ k.key ++ " node requires a resourceType"
  | endpointRequired role => role.key ++ "Id is required"
  | notNumber field => "'" ++ field ++ "' must be a number"
  | notPositive field => "'" ++ field ++ "' must be positive"
  | negative field => "'" ++ field ++ "' must not be negative"
  | nodeId given _ => "Node id " ++ given.quoted ++ " does not match its kind, type and name"
  | config => "'config' must be a mapping"
  | nodeExists id => "Node with ID " ++ id ++ " already exists"
  | nodeIdFixed _ => "Node ids are immutable"
  | kindFixed => "Node kind is immutable"
  | nodeFields names => "Unknown node fields: " ++ join ", " names
  | edgeType given => "Unrecognized edge type: " ++ given.quoted
  | ambiguous source target _ =>
    "Connection from " ++ source ++ " to " ++ target ++ " is ambiguous; address it by id"
  | endpointFixed _ => "Connection endpoints are immutable"
  | edgeIdFixed => "Connection ids are immutable"
  | edgeFields names => "Unknown connection fields: " ++ join ", " names
  | direction given => "Unrecognized layout direction: " ++ given.quoted
  | snapshot => "Diagram data must be a mapping"
  | snapshotLists => "Diagram nodes and edges must be lists"
  | repeatedNode id => "Duplicate node ID " ++ id
  | snapshotEdge => "Each edge must be a mapping"
  | snapshotEndpoints _ => "Edges require sourceId and targetId"
  | repeatedEdge id => "Duplicate connection ID " ++ id.shown
  | broken issues => "Diagram validation failed with " ++ Nat.repr issues.length ++ " errors"
  | noDiagram => "No diagram data provided"
  | noCode => "No generated code provided"
  | outsideRoot _ => "Output directory must stay inside the export root"
  | request _ => "Invalid request payload"

def details : Invalid → List Value
  | kind _ => [choiceDetail "kind" (Kind.all.map Kind.key)]
  | sectionShape name got => [.record [("section", .text name), ("got", .text got)]]
  | blockShape place got => [.record [("block", .text place), ("got", .text got)]]
  | kindRequired => [fieldDetail "kind"]
  | nameRequired => [fieldDetail "name"]
  | typeRequired _ => [fieldDetail "resource_type"]
  | endpointRequired role => [fieldDetail role.field]
  | notNumber field => [fieldDetail field]
  | notPositive field => [fieldDetail field]
  | negative field => [fieldDetail field]
  | nodeId _ expected => [.record [("field", .text "id"), ("expected", .text expected)]]
  | config => [fieldDetail "config"]
  | nodeExists id => [entryDetail "node_id" id]
  | nodeIdFixed field => [fieldDetail field]
  | kindFixed => [fieldDetail "kind"]
  | nodeFields names => names.map fieldDetail
  | edgeType _ => [choiceDetail "type" (EdgeType.all.map EdgeType.key)]
  | ambiguous _ _ ids => ids.map fun id => .record [("edge_id", id)]
  | endpointFixed role => [fieldDetail role.field]
  | edgeIdFixed => [fieldDetail "id"]
  | edgeFields names => names.map fieldDetail
  | direction _ => [choiceDetail "direction" (Direction.all.map Direction.key)]
  | repeatedNode id => [entryDetail "node_id" id]
  | snapshotEndpoints given => [given]
  | repeatedEdge id => [.record [("edge_id", id)]]
  | broken issues => issues.map Issue.toValue
  | outsideRoot directory => [entryDetail "outputDirectory" directory]
  | request places => places.map .text
  | _ => []

end Invalid

namespace Missing

def message : Missing → String
  | diagram id => "Diagram with ID " ++ id ++ " not found"
  | node id => "Node with ID " ++ id.shown ++ " not found"
  | endpoint role id => capitalized role.key ++ " node with ID " ++ id ++ " not found"
  | edge ref => "Connection " ++ ref ++ " not found"
  | connection source target => "Connection from " ++ source ++ " to " ++ target ++ " not found"
  | block kind id =>
    let label := match kind with
      | some kind => capitalized kind.key
      | none => "Node"
    label ++ " with ID " ++ id.shown ++ " not found"

def details : Missing → List Value
  | diagram id => [entryDetail "diagram_id" id]
  | node id => [.record [("node_id", id)]]
  | endpoint _ id => [entryDetail "node_id" id]
  | edge ref => [entryDetail "edge_id" ref]
  | connection source target =>
    [.record [("source_id", .text source), ("target_id", .text target)]]
  | block _ id => [.record [("node_id", id)]]

end Missing

namespace Unwritable

/-- The wording of a failure to write. -/
def message : Unwritable → String
  | number x => "Cannot emit non-finite number " ++ x.toText
  | descriptor => "Dynamic block descriptors must be mappings"
  | collection blockType => "Dynamic block '" ++ blockType ++ "' is missing for_each"
  | name kind id => "Invalid " ++ kind.key ++ " node " ++ id ++ ": missing name"
  | typeOrName kind id _ =>
    "Invalid " ++ kind.key ++ " node " ++ id ++ ": missing resourceType or name"
  | config id => "Node " ++ id ++ " config must be a mapping"
  | dependencies id => "Node " ++ id ++ ": depends_on must be a list"
  | dependency id => "Node " ++ id ++ ": depends_on entries must be identifiers"
  | variableType id => "Variable " ++ id ++ ": type must be a type expression string"
  | validation id => "Variable " ++ id ++ ": validation blocks must be mappings"

def details : Unwritable → List Value
  | name _ id => [.record [("node_id", .text id), ("field", .text "name")]]
  | typeOrName _ id field => [.record [("node_id", .text id), ("field", .text field)]]
  | _ => []

end Unwritable

namespace Unlaid

/-- The wording of a failed layout. -/
def message : Unlaid → String
  | dangling edge _ _ => "Edge " ++ edge.shown ++ " references a missing node"
  | arithmetic fault => "Layout failed: " ++ fault.message

def details : Unlaid → List Value
  | dangling edge source target =>
    [.record [("edge", edge), ("source", .text source), ("target", .text target)]]
  | arithmetic _ => []

end Unlaid

namespace Error

/-- The code of a failure; a defect has none. -/
def code? : Error → Option String
  | invalid _ => some "validation_error"
  | missing _ => some "not_found"
  | unwritable _ => some "generation_error"
  | unlaid _ => some "layout_error"
  | defect _ => none

def message : Error → String
  | invalid cause => cause.message
  | missing cause => cause.message
  | unwritable cause => cause.message
  | unlaid cause => cause.message
  | defect _ => ""

def details : Error → List Value
  | invalid cause => cause.details
  | missing cause => cause.details
  | unwritable cause => cause.details
  | unlaid cause => cause.details
  | defect _ => []

end Error

end BlockDiagram
