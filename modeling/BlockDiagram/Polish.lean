import BlockDiagram.Error
import BlockDiagram.Json.Embedded
import BlockDiagram.Json.Writer
import BlockDiagram.Value.Quoted

/-!
# Polishing labels

An assistant sees the ids of a diagram's nodes and edges and answers with labels, icons and verbs.
Only those three are taken over, for ids that exist and from texts that are not blank; groups and
annotations are handed on. Without a usable answer the diagram stays as it is. Where the escapes of
an answer hold half of a surrogate pair, its texts have the private character of `Text.unitChar`, so
that ids that differ in such halves are different ids here as well.

* `Diagram.projection`: what the assistant sees.
* `Diagram.relabelled`: the diagram with the labels, icons and verbs of an answer.
* `Diagram.polished`: the outcome of one question.
-/

namespace BlockDiagram

/-- What comes of a question to an assistant. -/
inductive Reply where
  | answer (content : Value)
  | failure
deriving Repr

namespace Diagram

/-! ## Question -/

/-- A node as the assistant sees it: its id and its type, or else its kind. -/
def projectNode (node : Node) : Value :=
  let type := match node.resourceType with
    | some type => if type = "" then node.kind.key else type
    | none => node.kind.key
  .record [("id", .text node.id), ("type", .text type)]

/-- An edge as the assistant sees it: its id and its ends. -/
def projectEdge (edge : Edge) : Value :=
  .record [("id", edge.id), ("sourceId", .text edge.source), ("targetId", .text edge.target)]

/-- A diagram as the assistant sees it. -/
def projection (d : Diagram) : Value :=
  .record [("nodes", .list (d.nodes.values.map projectNode)),
    ("edges", .list (d.edges.map projectEdge))]

def question (d : Diagram) : String := Json.write d.projection

/-! ## Answer -/

def suggestions (answer : Table Value) (key : String) : List Value :=
  match answer.get? key with
  | some (.list items) => items.filter Value.isRecord
  | _ => []

/-- A suggested text without the white space around it; blank ones are none. -/
def suggested? (suggestion : Value) (key : String) : Option Value :=
  match suggestion.field key with
  | .text s => if Text.isBlankText s then none else some (.text (Text.trimmed s))
  | _ => none

def suggestionId (suggestion : Value) : String := (suggestion.field "id").shown

/-- A node with the label and icon of a suggestion. -/
def relabelNode (suggestion : Value) (node : Node) : Node :=
  { node with
    label := (suggested? suggestion "label").getD node.label
    icon := (suggested? suggestion "icon").getD node.icon }

def relabelEdge (suggestion : Value) (edge : Edge) : Edge :=
  { edge with verb := (suggested? suggestion "verb").getD edge.verb }

/-- The diagram with one suggestion for a node taken over. -/
def takeNodeSuggestion (d : Diagram) (suggestion : Value) : Diagram :=
  { d with nodes := d.nodes.map fun (key, node) =>
      (key, if key = suggestionId suggestion then relabelNode suggestion node else node) }

/-- The diagram with one suggestion for an edge taken over. -/
def takeEdgeSuggestion (d : Diagram) (suggestion : Value) : Diagram :=
  { d with edges := d.edges.map fun edge =>
      if edge.id.isText (suggestionId suggestion) then relabelEdge suggestion edge else edge }

/-- The diagram with the labels, icons and verbs of an answer. -/
def relabelled (d : Diagram) (answer : Table Value) : Diagram :=
  let withNodes := (suggestions answer "nodes").foldl takeNodeSuggestion d
  (suggestions answer "edges").foldl takeEdgeSuggestion withNodes

/-- The diagram with what a value suggests, which must be a record. -/
def relabelledBy (d : Diagram) (answer : Value) : Except Error Diagram :=
  match answer with
  | .record fields => .ok (d.relabelled fields)
  | _ => .error (.defect .absentOperation)

/-- The outcome of a question: the diagram, whether it was polished, and what the assistant put
beside it. -/
structure Polished where
  diagram : Diagram
  isPolished : Bool
  groups : List Value
  annotations : List Value
deriving Repr

/-- The outcome of a question that brought nothing. -/
def unpolished (d : Diagram) : Polished := ⟨d, false, [], []⟩

/-- The outcome of a question about a diagram. -/
def polished (d : Diagram) (reply : Reply) : Polished :=
  match reply with
  | .failure => d.unpolished
  | .answer content =>
    match Json.embedded? content with
    | none | some [] => d.unpolished
    | some answer =>
      ⟨d.relabelled answer, true, suggestions answer "groups", suggestions answer "annotations"⟩

end Diagram

end BlockDiagram
