import BlockDiagram.Kind

/-!
# Diagrams

A diagram has nodes in a table, edges in a list, layout options and bounds. What comes from outside
without a check is a `Value`: labels, icons, sizes, coordinates, spacings, and the ids of edges.
Edges are kept under their own ids; no two have the same one.

* `Diagram.freshEdgeId`: the id of a new edge, the first one that is free.
* `Diagram.addEdge`: a new edge comes last.
-/

namespace BlockDiagram

/-- A block as it is drawn. -/
structure Node where
  id : String
  kind : Kind
  name : Option String
  resourceType : Option String
  label : Value
  config : Value
  x : Value
  y : Value
  width : Value
  height : Value
  icon : Value
deriving Repr

/-- The node with its kind's size and label in place of what was not given. -/
def Node.completed (node : Node) : Node :=
  { node with
    width := node.width.orElse (.int node.kind.defaultWidth)
    height := node.height.orElse (.int node.kind.defaultHeight)
    label := node.label.orElse (.text (node.kind.defaultLabel node.name node.resourceType)) }

/-- A connection between two blocks. -/
structure Edge where
  id : Value
  source : String
  target : String
  type : EdgeType
  label : Value
  verb : Value
deriving Repr

/-- Whether an edge starts or ends at a node. -/
def Edge.touches (edge : Edge) (nodeId : String) : Bool :=
  edge.source == nodeId || edge.target == nodeId

/-- Whether an edge runs from one node to another. -/
def Edge.joins (edge : Edge) (source target : String) : Bool :=
  edge.source == source && edge.target == target

/-- How a diagram is laid out. -/
structure Options where
  direction : Direction
  nodeSpacing : Value
  rankSpacing : Value
  marginX : Value
  marginY : Value
deriving Repr

/-- The options of a diagram that names none. -/
def Options.standard : Options := ⟨.leftToRight, .int 70, .int 100, .int 20, .int 20⟩

/-- Blocks, their connections, and how they are laid out. -/
structure Diagram where
  nodes : Table Node
  edges : List Edge
  options : Options
  width : Value
  height : Value
deriving Repr

namespace Diagram

def empty : Diagram := ⟨[], [], Options.standard, .int 0, .int 0⟩

instance : Inhabited Diagram := ⟨empty⟩

def hasNode (d : Diagram) (id : String) : Bool := Table.has d.nodes id

def edge? (d : Diagram) (id : Value) : Option Edge := d.edges.find? fun edge => edge.id.same id

def hasEdge (d : Diagram) (id : Value) : Bool := d.edges.any fun edge => edge.id.same id

/-- The edges that start or end at a node. -/
def incidentEdges (d : Diagram) (nodeId : String) : List Edge :=
  d.edges.filter fun edge => edge.touches nodeId

def edgesBetween (d : Diagram) (source target : String) : List Edge :=
  d.edges.filter fun edge => edge.joins source target

def nodesOf (d : Diagram) (kind : Kind) : List Node :=
  (Table.values d.nodes).filter fun node => node.kind = kind

/-- The ids of the edges of a pair in the order in which they are tried: the pair itself, then the
pair numbered from two on. -/
def edgeIdAt (source target : String) : Nat → String
  | 0 => source ++ ":" ++ target
  | n + 1 => source ++ ":" ++ target ++ ":" ++ Nat.repr (n + 2)

/-- The first id of a pair that no edge has. Among one more candidates than there are edges one is
free. -/
def freshEdgeId (d : Diagram) (source target : String) : String :=
  let free := (List.range (d.edges.length + 1)).find? fun n =>
    !d.hasEdge (.text (edgeIdAt source target n))
  edgeIdAt source target (free.getD 0)

/-- The diagram with an edge under its id: in place of the edge that has it, or at the end. -/
def putEdge (d : Diagram) (edge : Edge) : Diagram :=
  if d.hasEdge edge.id then
    { d with edges := d.edges.map fun other => if other.id.same edge.id then edge else other }
  else { d with edges := d.edges ++ [edge] }

/-- A new edge between two nodes, under a fresh id. -/
def newEdge (d : Diagram) (source target : String) (type : EdgeType) (label verb : Value) : Edge :=
  ⟨.text (d.freshEdgeId source target), source, target, type, label, verb⟩

/-- The diagram with a new edge at the end. -/
def addEdge (d : Diagram) (source target : String) (type : EdgeType) (label verb : Value) :
    Diagram :=
  { d with edges := d.edges ++ [d.newEdge source target type label verb] }

@[simp] theorem nodes_addEdge (d : Diagram) (source target : String) (type : EdgeType)
    (label verb : Value) : (d.addEdge source target type label verb).nodes = d.nodes := rfl

def putNode (d : Diagram) (key : String) (node : Node) : Diagram :=
  { d with nodes := Table.put d.nodes key node }

end Diagram

end BlockDiagram
