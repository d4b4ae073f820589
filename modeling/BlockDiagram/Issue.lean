import BlockDiagram.Diagram
import BlockDiagram.Value.Quoted

/-!
# Issues of a diagram

What a check of a diagram can find, from broken structure to remarks. `Issue.message` is the
wording and `Issue.toValue` the report of one issue.
-/

namespace BlockDiagram

/-- How bad an issue is. -/
inductive Severity where
  | error
  | warning
  | info
deriving DecidableEq, Repr

def Severity.key : Severity → String
  | error => "error"
  | warning => "warning"
  | info => "info"

/-- The ends of an edge. -/
inductive Endpoint where
  | source
  | target
deriving DecidableEq, Repr

def Endpoint.key : Endpoint → String
  | source => "source"
  | target => "target"

def Edge.endpoint (edge : Edge) : Endpoint → String
  | .source => edge.source
  | .target => edge.target

/-- What can be wrong with a diagram, or worth a remark. -/
inductive Issue where
  /-- A node's key is blank or its id empty. -/
  | emptyNodeId
  /-- A node is stored under a key that is not its id. -/
  | nodeIdMismatch (key id : String)
  /-- An end of an edge is no node. -/
  | missingEndpoint (edge : Value) (role : Endpoint) (node : String)
  /-- An edge ends where it starts. -/
  | selfLoop (edge : Value) (node : String)
  /-- No edge touches a node. -/
  | orphan (node : String)
  /-- Several edges run from one node to another. -/
  | parallel (count : Nat) (source target : String)
deriving Repr

namespace Issue

def severity : Issue → Severity
  | emptyNodeId => .error
  | nodeIdMismatch .. => .error
  | missingEndpoint .. => .error
  | selfLoop .. => .warning
  | orphan _ => .info
  | parallel .. => .info

def code : Issue → String
  | emptyNodeId => "EMPTY_NODE_ID"
  | nodeIdMismatch .. => "NODE_ID_MISMATCH"
  | missingEndpoint _ .source _ => "MISSING_SOURCE_NODE"
  | missingEndpoint _ .target _ => "MISSING_TARGET_NODE"
  | selfLoop .. => "SELF_LOOP"
  | orphan _ => "ORPHANED_NODE"
  | parallel .. => "PARALLEL_EDGES"

def message : Issue → String
  | emptyNodeId => "Node has an empty id"
  | nodeIdMismatch key id => "Node stored under '" ++ key ++ "' carries id '" ++ id ++ "'"
  | missingEndpoint edge role node =>
    "Connection " ++ edge.shown ++ " references non-existent " ++ role.key ++ " node '" ++ node
      ++ "'"
  | selfLoop edge node => "Connection " ++ edge.shown ++ " loops on node '" ++ node ++ "'"
  | orphan node => "Node '" ++ node ++ "' has no connections"
  | parallel count source target =>
    Nat.repr count ++ " connections run from '" ++ source ++ "' to '" ++ target
      ++ "'; address them by id"

def nodeId : Issue → Value
  | emptyNodeId => .null
  | nodeIdMismatch key _ => .text key
  | missingEndpoint _ _ node => .text node
  | selfLoop _ node => .text node
  | orphan node => .text node
  | parallel _ source _ => .text source

def edgeId : Issue → Value
  | missingEndpoint edge _ _ => edge
  | selfLoop edge _ => edge
  | _ => .null

def toValue (issue : Issue) : Value :=
  .record [("severity", .text issue.severity.key), ("code", .text issue.code),
    ("message", .text issue.message), ("node_id", issue.nodeId), ("edge_id", issue.edgeId)]

end Issue

end BlockDiagram
