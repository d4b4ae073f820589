import BlockDiagram.Arrangement
import BlockDiagram.Configuration
import BlockDiagram.Digraph.Feedback
import BlockDiagram.Error
import BlockDiagram.Layering.Crossing

/-!
# Drawings

A drawing gives every node a rank and the position of its centre. Ranks lie one behind another
along the main axis, each as thick as its thickest node; the nodes of a rank lie side by side and
are centred together on the cross axis. All sizes and spacings are unchecked values, so the
arithmetic may fail.

* `Diagram.digraph`: the connections that count for ranks, parallel ones and loops merged away.
* `Diagram.drawing`: the drawing of a diagram.
* `Diagram.laidOut`: the diagram with the positions and bounds of its drawing.
-/

namespace BlockDiagram

open Value (Fault)

/-! ## The graph of a diagram -/

namespace Diagram

/-- The edges in order of their ids, if the ids have an order. -/
def edgesById (edges : List Edge) : Except Fault (List Edge) :=
  Arrangement.ofList (fun edge other => edge.id.lessThan other.id) edges

def isDangling (d : Diagram) (edge : Edge) : Bool :=
  !d.hasNode edge.source || !d.hasNode edge.target

/-- The nodes of a diagram and the pairs of different nodes that an edge joins. -/
def digraph (d : Diagram) : Except Unlaid Digraph := do
  let edges ← match edgesById d.edges with
    | .ok edges => pure edges
    | .error fault => throw (.arithmetic fault)
  match edges.find? d.isDangling with
  | some edge => .error (.dangling edge.id edge.source edge.target)
  | none =>
    let proper := edges.filter fun edge => edge.source != edge.target
    return Digraph.ofLists d.nodes.keys (proper.map fun edge => (edge.source, edge.target))

end Diagram

/-! ## Placing ranks -/

/-- A node's extents along the main axis and across it. -/
structure Box where
  id : String
  along : Value
  across : Value
deriving Repr

def Box.ofNode (direction : Direction) (id : String) (node : Node) : Box :=
  if direction.isHorizontal then ⟨id, node.width, node.height⟩ else ⟨id, node.height, node.width⟩

/-- A drawing: ranks, centres, and bounds. -/
structure Drawing where
  ranks : Table Nat
  centres : Table (Int × Int)
  width : Int
  height : Int
deriving DecidableEq, Repr

namespace Drawing

/-- The boxes of the nodes on each rank; ranks that hold placeholders alone vanish. -/
def boxes (d : Diagram) (direction : Direction) (ordering : List (List String)) :
    List (List Box) :=
  let rows := ordering.map fun rank =>
    (rank.filter fun name => !Layering.isPlaceholder name).filterMap fun name =>
      (d.nodes.get? name).map (Box.ofNode direction name)
  rows.filter fun row => !row.isEmpty

/-- The greatest of some values, zero when there are none. -/
def greatestOf : List Value → Except Fault Value
  | [] => .ok (.int 0)
  | first :: others => Value.greatest first others

/-- The thickness of a rank: that of its thickest node. -/
def thickness (row : List Box) : Except Fault Value := greatestOf (row.map Box.along)

/-- The span of a rank: its nodes side by side with spacings between them. -/
def span (options : Options) (row : List Box) : Except Fault Value := do
  let extents ← Value.sum (row.map Box.across)
  extents.add (← options.nodeSpacing.times ((row.length : Int) - 1))

/-- The centre of a node from its centres along the main axis and across it, margins added and
rounded. -/
def centre (options : Options) (main cross : Value) : Except Fault (Int × Int) := do
  let (right, down) := if options.direction.isHorizontal then (main, cross) else (cross, main)
  let x ← options.marginX.add right
  let y ← options.marginY.add down
  return (← x.round, ← y.round)

/-- The centres of a rank's nodes, from the position where the first one begins. -/
def rowCentres (options : Options) (main : Value) :
    Value → List Box → Except Fault (Table (Int × Int))
  | _, [] => .ok []
  | start, box :: rest => do
    let cross ← start.add (← box.across.half)
    let here ← centre options main cross
    let next ← start.add (← box.across.add options.nodeSpacing)
    return (box.id, here) :: (← rowCentres options main next rest)

/-- A rank with its thickness and span. -/
structure Row where
  boxes : List Box
  thickness : Value
  span : Value
deriving Repr

/-- A position along the main axis, counted from the far end if the direction is reversed. -/
def alongAxis (options : Options) (depth position : Value) : Except Fault Value :=
  if options.direction.isReversed then depth.sub position else .ok position

/-- The centres of a rank's nodes, from the position where the rank begins. -/
def rankCentres (options : Options) (depth breadth start : Value) (row : Row) :
    Except Fault (Table (Int × Int)) := do
  let main ← alongAxis options depth (← start.add (← row.thickness.half))
  let cross ← (← breadth.sub row.span).half
  rowCentres options main cross row.boxes

/-- The centres of all nodes, from the position where the first rank begins. -/
def placeRanks (options : Options) (depth breadth : Value) :
    Value → List Row → Except Fault (Table (Int × Int))
  | _, [] => .ok []
  | start, row :: rest => do
    let here ← rankCentres options depth breadth start row
    let next ← start.add (← row.thickness.add options.rankSpacing)
    return here ++ (← placeRanks options depth breadth next rest)

/-- The extent of the whole drawing with a margin on either side, rounded. -/
def bound (extent margin : Value) : Except Fault Int := do
  (← extent.add (← margin.timesLeft 2)).round

/-- The drawing of a diagram whose nodes are ordered on ranks. -/
def ofOrdering (d : Diagram) (options : Options) (ordering : List (List String)) :
    Except Fault Drawing := do
  let rows := boxes d options.direction ordering
  let thicknesses ← rows.mapM thickness
  let spans ← rows.mapM (span options)
  let depth ← (← Value.sum thicknesses).add
    (← options.rankSpacing.times ((rows.length - 1 : Nat) : Int))
  let breadth ← greatestOf spans
  let measured := (rows.zip (thicknesses.zip spans)).map fun (boxes, thickness, span) =>
    Row.mk boxes thickness span
  let placed ← placeRanks options depth breadth (.float (.rational 0)) measured
  let (right, down) := if options.direction.isHorizontal then (depth, breadth) else (breadth, depth)
  return {
    ranks := rows.zipIdx.flatMap fun (row, rank) => row.map fun box => (box.id, rank)
    centres := placed
    width := ← bound right options.marginX
    height := ← bound down options.marginY }

end Drawing

/-! ## Laying out a diagram -/

namespace Diagram

/-- The layering of a diagram's nodes and the placeholders between them. -/
def layering (d : Diagram) : Except Unlaid Layering := do
  let acyclic := (← d.digraph).withoutCycles
  return Layering.proper acyclic acyclic.ranks

def drawing (d : Diagram) (options : Options) : Except Unlaid Drawing := do
  let layering ← d.layering
  match Drawing.ofOrdering d options layering.ordering with
  | .ok drawing => .ok drawing
  | .error fault => .error (.arithmetic fault)

/-- A node with the centre that a drawing gives it. -/
def moved (centres : Table (Int × Int)) (id : String) (node : Node) : Node :=
  match centres.get? id with
  | some (x, y) => { node with x := .int x, y := .int y }
  | none => node

/-- The diagram with options and the positions and bounds of a drawing. -/
def placed (d : Diagram) (options : Options) (drawing : Drawing) : Diagram :=
  { d with
    nodes := d.nodes.map fun (id, node) => (id, moved drawing.centres id node)
    options := options
    width := .int drawing.width
    height := .int drawing.height }

/-- The diagram with options, placed as the drawing that they give. -/
def laidOut (d : Diagram) (options : Options) : Except Error Diagram :=
  match d.drawing options with
  | .ok drawing => .ok (d.placed options drawing)
  | .error cause => .error (.unlaid cause)

/-- The diagram laid out anew with its own options. -/
def refreshed (d : Diagram) : Except Error Diagram := d.laidOut d.options

end Diagram

/-- The diagram of a configuration, laid out. -/
def Configuration.drawn (configuration : Value) (options : Options) : Except Error Diagram := do
  (← Configuration.diagram configuration options).laidOut options

end BlockDiagram
