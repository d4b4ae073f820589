import BlockDiagram.Issue
import BlockDiagram.Value.Arithmetic

/-!
# Failures

Every failure is a cause. The first four families are the answers of the engine to input that it
refuses; a `Defect` is an operation that was applied where it has no meaning. The wording is in
`BlockDiagram.Error.Message`.
-/

namespace BlockDiagram

/-- Why an input is refused. -/
inductive Invalid where
  /-- A kind that no block has. -/
  | kind (given : Value)
  /-- A configuration that is no mapping. -/
  | configuration
  /-- A section of a configuration that is no mapping. -/
  | sectionShape (name got : String)
  /-- A type's entry in a section that does not map names to blocks. -/
  | blocksShape (name type : String)
  /-- A block that is no mapping. -/
  | blockShape (place got : String)
  /-- A payload that is no mapping. -/
  | payload
  /-- A node payload without a kind. -/
  | kindRequired
  /-- A node payload without a name. -/
  | nameRequired
  /-- A payload of a typed kind without a type. -/
  | typeRequired (kind : Kind)
  /-- An edge payload without one of its ends. -/
  | endpointRequired (role : Endpoint)
  /-- A field that is no number. -/
  | notNumber (field : String)
  /-- A size that is not positive. -/
  | notPositive (field : String)
  /-- A spacing that is negative. -/
  | negative (field : String)
  /-- An id other than kind, type and name make. -/
  | nodeId (given : Value) (expected : String)
  /-- A node's attributes that are no mapping. -/
  | config
  /-- A new node with the id of another one. -/
  | nodeExists (id : String)
  /-- A change to a field that the id of a node is made of. -/
  | nodeIdFixed (field : String)
  /-- A change of a node's kind. -/
  | kindFixed
  /-- Fields that no node has. -/
  | nodeFields (names : List String)
  /-- A type that no edge has. -/
  | edgeType (given : Value)
  /-- A pair of nodes with several edges. -/
  | ambiguous (source target : String) (ids : List Value)
  /-- A change of an edge's end. -/
  | endpointFixed (role : Endpoint)
  /-- A change of an edge's id. -/
  | edgeIdFixed
  /-- Fields of an edge that cannot be changed. -/
  | edgeFields (names : List String)
  /-- A direction that does not exist. -/
  | direction (given : Value)
  /-- A snapshot that is no mapping. -/
  | snapshot
  /-- A snapshot whose nodes or edges are no list. -/
  | snapshotLists
  /-- Two nodes of a snapshot with one id. -/
  | repeatedNode (id : String)
  /-- An edge of a snapshot that is no mapping. -/
  | snapshotEdge
  /-- An edge of a snapshot without its ends. -/
  | snapshotEndpoints (given : Value)
  /-- Two edges of a snapshot with one id. -/
  | repeatedEdge (id : Value)
  /-- A diagram with broken structure. -/
  | broken (issues : List Issue)
  /-- A request for code without a diagram. -/
  | noDiagram
  /-- A request for an export without code. -/
  | noCode
  /-- An export to a directory outside the export root. -/
  | outsideRoot (directory : String)
  /-- A request body with faults at these places. -/
  | request (places : List String)
deriving Repr

/-- Why something addressed is not there. -/
inductive Missing where
  | diagram (id : String)
  | node (id : Value)
  | endpoint (role : Endpoint) (id : String)
  | edge (ref : String)
  | connection (source target : String)
  /-- No node under an id, or none of the kinds that a request is for. -/
  | block (kind : Option Kind) (id : Value)
deriving Repr

/-- Why a block has no configuration text. -/
inductive Unwritable where
  /-- A number that is not finite. -/
  | number (x : Binary64)
  /-- A dynamic block that is no mapping. -/
  | descriptor
  /-- A dynamic block without its collection. -/
  | collection (blockType : String)
  /-- A node without a name. -/
  | name (kind : Kind) (id : String)
  /-- A node of a typed kind without its type or name. -/
  | typeOrName (kind : Kind) (id : String) (field : String)
  /-- Attributes that are no mapping. -/
  | config (id : String)
  /-- Dependencies that are no list. -/
  | dependencies (id : String)
  /-- A dependency that is no identifier. -/
  | dependency (id : String)
  /-- A variable's type that is no text. -/
  | variableType (id : String)
  /-- A validation block that is no mapping. -/
  | validation (id : String)
deriving Repr

/-- Why a diagram has no layout. -/
inductive Unlaid where
  /-- An edge with an end that is no node. -/
  | dangling (edge : Value) (source target : String)
  /-- Arithmetic on sizes and spacings, or the order of edge ids, failed. -/
  | arithmetic (fault : Value.Fault)
deriving Repr

/-- Operations applied where they have no meaning. -/
inductive Defect where
  /-- A value of the wrong type. -/
  | wrongType
  /-- An operation that values of a type do not have. -/
  | absentOperation
  /-- An entry that is not there. -/
  | absentKey
  /-- An item of a list that is not there. -/
  | absentItem
  /-- A value out of the range of an operation. -/
  | badValue
  /-- A file to be written where a directory is. -/
  | isDirectory
  /-- A name or a path that is too long for a disk. -/
  | longName
  /-- A text that addresses nothing. -/
  | badAddress
  /-- An answer with the status of a failure. -/
  | badStatus
deriving DecidableEq, Repr

/-- A failure. -/
inductive Error where
  | invalid (cause : Invalid)
  | missing (cause : Missing)
  | unwritable (cause : Unwritable)
  | unlaid (cause : Unlaid)
  | defect (cause : Defect)
deriving Repr

end BlockDiagram
