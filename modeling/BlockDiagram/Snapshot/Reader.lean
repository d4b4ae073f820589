import BlockDiagram.Payload
import BlockDiagram.Snapshot

/-!
# Diagrams from snapshots

A node of a snapshot is checked like a new node. Of an edge only the shape is checked: whether its
ends are nodes is for the caller to see.
-/

namespace BlockDiagram.Snapshot

/-- An end of an edge: under its own key or, where that is absent, under the other spelling. -/
def endpoint? (fields : Table Value) (key spelling : String) : Option String :=
  (fields.get? key <|> fields.get? spelling).bind Value.text?

def addNode (d : Diagram) (value : Value) : Except Error Diagram := do
  let node ← Payload.node value
  if d.hasNode node.id then throw (.invalid (.repeatedNode node.id))
  return d.putNode node.id node

/-- The diagram with an edge of a snapshot, if no edge has the same id. -/
def addEdge (same : Value → Value → Bool) (d : Diagram) (value : Value) : Except Error Diagram :=
  match value with
  | .record fields =>
    match endpoint? fields "sourceId" "source_id", endpoint? fields "targetId" "target_id" with
    | some source, some target => do
      let id := (value.field "id").orElse (.text (d.freshEdgeId source target))
      if !id.isKey then throw (.defect .wrongType)
      if d.edges.any (same ·.id id) then throw (.invalid (.repeatedEdge id))
      let type ← Payload.edgeType (value.field "type")
      let label := (value.field "label").orElse (.text "")
      return { d with edges := d.edges ++ [⟨id, source, target, type, label, value.field "verb"⟩] }
    | _, _ => .error (.invalid (.snapshotEndpoints value))
  | _ => .error (.invalid .snapshotEdge)

/-- The items of a list field; one that does not count as given has none. -/
def items (value : Value) (key : String) : Except Error (List Value) :=
  match (value.field key).orElse (.list []) with
  | .list found => .ok found
  | _ => .error (.invalid .snapshotLists)

/-- The diagram of a snapshot, with a test of whether two ids are the same. -/
def diagramBy (same : Value → Value → Bool) (value : Value) : Except Error Diagram :=
  match value with
  | .record _ => do
    let nodes ← items value "nodes"
    let edges ← items value "edges"
    let options ← Payload.options (value.field "layout") Options.standard
    let bounds : Diagram :=
      { nodes := []
        edges := []
        options := options
        width := (value.field "width").orElse (.int 0)
        height := (value.field "height").orElse (.int 0) }
    edges.foldlM (addEdge same) (← nodes.foldlM addNode bounds)
  | _ => .error (.invalid .snapshot)

def diagram (value : Value) : Except Error Diagram := diagramBy Value.same value

end BlockDiagram.Snapshot
