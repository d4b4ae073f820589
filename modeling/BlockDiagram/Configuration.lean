import BlockDiagram.Error
import BlockDiagram.Reference

/-!
# Diagrams from configurations

A configuration has up to five sections. Resources and data sources stand under their types,
modules, variables and outputs under their names alone; every block becomes a node, in that order.
Dependencies and references become edges, each to the first candidate that is a node: for every
node first the entries of its dependency list, then the interpolations in its other attributes.

* `Configuration.blocks`: the nodes, or what is wrong with a section.
* `Configuration.connections`: the edges, before they have ids.
* `Configuration.diagram`: the diagram of a configuration, not laid out.
-/

namespace BlockDiagram

/-- A connection that has no id yet. -/
structure Connection where
  source : String
  target : String
  type : EdgeType
  label : String
deriving DecidableEq, Repr

/-- The diagram with a connection as its last edge. -/
def Diagram.connect (d : Diagram) (c : Connection) : Diagram :=
  d.addEdge c.source c.target c.type (.text c.label) .null

namespace Configuration

/-! ## Nodes -/

def dependencyKey : String := "depends_on"

/-- The entries of a section; an absent one has none. -/
def entries (sections : Value) (name : String) : Except Error (List (String × Value)) :=
  match (sections.field name).orElse (.record []) with
  | .record found => .ok found
  | other => .error (.invalid (.sectionShape name other.typeName))

/-- The attributes of a block; a block may be null. -/
def attributes (body : Value) (place : String) : Except Error Value :=
  match body with
  | .null => .ok (.record [])
  | .record fields => .ok (.record fields)
  | other => .error (.invalid (.blockShape place other.typeName))

def node (kind : Kind) (type : Option String) (name : String) (config : Value) : Node :=
  Node.completed
    { id := kind.nodeId (some name) type
      kind := kind
      name := some name
      resourceType := type
      label := .text ""
      config := config
      x := .int 0
      y := .int 0
      width := .int 0
      height := .int 0
      icon := .null }

/-- The nodes of blocks under one type, or under none. -/
def blocksUnder (kind : Kind) (type : Option String) (place : String)
    (blocks : List (String × Value)) : Except Error (List Node) :=
  blocks.mapM fun (name, body) => do
    return node kind type name (← attributes body (place ++ "." ++ name))

def blocksOf (sections : Value) (kind : Kind) : Except Error (List Node) := do
  let found ← entries sections kind.key
  if kind.isTyped then
    let groups ← found.mapM fun (type, blocks) =>
      match blocks with
      | .record blocks => blocksUnder kind (some type) (kind.key ++ "." ++ type) blocks
      | _ => .error (.invalid (.blocksShape kind.key type))
    return groups.flatten
  else blocksUnder kind none kind.key found

def blocks (sections : Value) : Except Error (List Node) := do
  return (← Kind.all.mapM (blocksOf sections)).flatten

/-! ## Edges -/

def resolve? (nodes : Table Node) (candidates : List String) : Option String :=
  candidates.find? nodes.has

def dependencies (nodes : Table Node) (node : Node) : List Connection :=
  match node.config.field dependencyKey with
  | .list listed => listed.filterMap fun entry =>
    (resolve? nodes (Reference.dependencyCandidates entry)).map fun source =>
      ⟨source, node.id, .dependsOn, dependencyKey⟩
  | _ => []

/-- The references in one attribute of a node, labelled with the nearest key that is not empty. -/
def referencesIn (nodes : Table Node) (node : Node) (key : String) (value : Value) :
    List Connection :=
  (Reference.scan value (some key)).filterMap fun occurrence =>
    (resolve? nodes occurrence.candidates).map fun source =>
      let nearest := occurrence.key.getD ""
      ⟨source, node.id, .reference, if nearest = "" then key else nearest⟩

def references (nodes : Table Node) (node : Node) : List Connection :=
  match node.config with
  | .record attributes => attributes.flatMap fun (key, value) =>
    if key = dependencyKey then [] else referencesIn nodes node key value
  | _ => []

def connections (nodes : Table Node) : List Connection :=
  nodes.values.flatMap fun node => dependencies nodes node ++ references nodes node

/-! ## Diagrams -/

/-- The diagram of a configuration, not laid out. -/
def diagram (configuration : Value) (options : Options) : Except Error Diagram :=
  match configuration with
  | .record _ => do
    let found ← blocks configuration
    let nodes := Table.ofList (found.map fun node => (node.id, node))
    return (connections nodes).foldl Diagram.connect { Diagram.empty with nodes, options }
  | _ => .error (.invalid .configuration)

end Configuration

end BlockDiagram
