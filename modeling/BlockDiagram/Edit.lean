import BlockDiagram.Drawing
import BlockDiagram.Payload

/-!
# Edits

An edit checks its payload, changes the diagram and lays it out anew. A node that is given
coordinates is moved by hand: the layout is left alone. What the id of a node or edge is made of
cannot be changed, only repeated.

* `Diagram.withNode`, `Diagram.withNodeChanged`, `Diagram.withoutNode`: edits of nodes.
* `Diagram.withEdge`, `Diagram.withEdgeChanged`, `Diagram.withoutEdge`: edits of edges.
* `Diagram.withOptions`: a change of the layout options.
* `Diagram.resolve`: the edge that a reference stands for.
-/

namespace BlockDiagram

namespace Diagram

/-! ## Nodes -/

/-- The diagram with a new node, not laid out. -/
def appendNode (d : Diagram) (payload : Value) : Except Error Diagram := do
  let node ← Payload.node payload
  if d.hasNode node.id then throw (.invalid (.nodeExists node.id))
  return d.putNode node.id node

def withNode (d : Diagram) (payload : Value) : Except Error Diagram := do
  (← d.appendNode payload).refreshed

/-- The node under an id, and the id as a text. No other value is the id of a node. -/
def nodeAt (d : Diagram) (id : Value) : Except Error (String × Node) :=
  match id with
  | .text key =>
    match d.nodes.get? key with
    | some node => .ok (key, node)
    | none => .error (.missing (.node id))
  | _ => .error (if id.isKey then .missing (.node id) else .defect .wrongType)

/-- The fields of a node that a patch may hold, apart from its id and kind. -/
def nodeFields : List String :=
  ["name", "resource_type", "label", "config", "x", "y", "width", "height", "icon"]

/-- Refuses a patch with another kind. The kind may be repeated under either of its keys; under
the first one it counts if it counts as given. -/
def checkKind (p : Payload) (node : Node) : Except Error Unit :=
  if p.has "kind" || p.has "type" then do
    let given := p.entry "kind"
    if !given.isTruthy && !p.has "type" then throw (.defect .absentKey)
    let kind ← Payload.kind (given.orElse (p.entry "type"))
    if kind ≠ node.kind then throw (.invalid .kindFixed)
  else .ok ()

/-- Refuses a patch with another name or type. -/
def checkIdentity (p : Payload) (key : String) (current : Option String) : Except Error Unit :=
  match p.get? key with
  | some value =>
    let isSame := match current with
      | some s => value.isText s
      | none => value.isNull
    if isSame then .ok () else .error (.invalid (.nodeIdFixed key))
  | none => .ok ()

/-- Refuses a patch that holds null under the key of a number. -/
def checkGiven (p : Payload) (key : String) : Except Error Unit :=
  if p.has key && (p.entry key).isNull then .error (.invalid (.notNumber key)) else .ok ()

/-- The changes that a patch makes to a node, once it is checked. -/
def nodePatch (node : Node) (id : String) (payload : Value) : Except Error Payload := do
  let p ← Payload.ofValue Payload.nodeSpellings payload
  if p.contradicts "id" (.text id) then throw (.invalid (.nodeIdFixed "id"))
  checkKind p node
  let changes : Payload := ((p.erase "id").erase "kind").erase "type"
  let unknown := changes.keys.filter fun key => !nodeFields.contains key
  if !unknown.isEmpty then throw (.invalid (.nodeFields (Text.sortedNames unknown)))
  checkIdentity changes "name" node.name
  checkIdentity changes "resource_type" node.resourceType
  if changes.has "config" && !(changes.entry "config").isRecord then throw (.invalid .config)
  ["x", "y", "width", "height"].forM (checkGiven changes)
  changes.checkNumber "x"
  changes.checkNumber "y"
  changes.checkSize "width"
  changes.checkSize "height"
  return changes

/-- A node with the fields of a patch in place of its own. -/
def patchNode (node : Node) (changes : Payload) : Node :=
  let pick (key : String) (current : Value) : Value := (changes.get? key).getD current
  Node.completed
    { node with
      label := pick "label" node.label
      config := pick "config" node.config
      x := pick "x" node.x
      y := pick "y" node.y
      width := pick "width" node.width
      height := pick "height" node.height
      icon := pick "icon" node.icon }

/-- The diagram with a node changed. Coordinates in the patch, or the flag, leave the layout
alone. -/
def withNodeChanged (d : Diagram) (id : Value) (payload : Value) (relayout : Bool) :
    Except Error Diagram := do
  let (key, node) ← d.nodeAt id
  let changes ← nodePatch node key payload
  let changed := d.putNode key (patchNode node changes)
  if changes.has "x" || changes.has "y" || !relayout then return changed
  changed.refreshed

/-- The diagram without a node and the edges that touch it, not laid out. -/
def removeNode (d : Diagram) (id : String) : Diagram :=
  { d with
    nodes := d.nodes.erase id
    edges := d.edges.filter fun edge => !edge.touches id }

/-- The diagram without a node and the edges that touch it. -/
def withoutNode (d : Diagram) (id : Value) : Except Error Diagram := do
  let (key, _) ← d.nodeAt id
  (d.removeNode key).refreshed

/-! ## Edges -/

/-- The edge that a text stands for which is no id: the only one of a pair. -/
def resolvePair (d : Diagram) (ref : String) : Except Error Edge :=
  match Text.splitAt ':' ref with
  | [source, target] =>
    match d.edgesBetween source target with
    | [] => .error (.missing (.connection source target))
    | [edge] => .ok edge
    | edges => .error (.invalid (.ambiguous source target (edges.map Edge.id)))
  | _ => .error (.missing (.edge ref))

/-- The edge that a reference stands for: the one with that id, or the only one of a pair. Only a
text can name a pair. -/
def resolve (d : Diagram) (ref : Value) : Except Error Edge :=
  match d.edge? ref with
  | some edge => .ok edge
  | none =>
    match ref with
    | .text s => d.resolvePair s
    | _ => .error (.defect (if ref.isKey then .absentOperation else .wrongType))

def endpointOf (p : Payload) (role : Endpoint) (key : String) : Except Error String :=
  match p.text? key with
  | some id => .ok id
  | none => .error (.invalid (.endpointRequired role))

/-- Refuses an end that is no node. -/
def checkEndpoint (d : Diagram) (role : Endpoint) (id : String) : Except Error Unit :=
  if d.hasNode id then .ok () else .error (.missing (.endpoint role id))

/-- The label of a new edge: a dependency is labelled as one. -/
def newLabel (given : Value) (type : EdgeType) : Value :=
  if given.isNull then
    match type with
    | .dependsOn => .text "depends_on"
    | .reference => .text ""
  else given

/-- The diagram with a new edge, not laid out. -/
def appendEdge (d : Diagram) (payload : Value) : Except Error Diagram := do
  let p ← Payload.ofValue Payload.edgeSpellings payload
  let source ← endpointOf p .source "source_id"
  let target ← endpointOf p .target "target_id"
  d.checkEndpoint .source source
  d.checkEndpoint .target target
  let type ← Payload.edgeType (p.entry "type")
  return d.addEdge source target type (newLabel (p.entry "label") type)
    ((p.entry "verb").orElse .null)

def withEdge (d : Diagram) (payload : Value) : Except Error Diagram := do
  (← d.appendEdge payload).refreshed

/-- The fields of an edge that a patch may change. -/
def edgeFields : List String := ["type", "label", "verb"]

/-- Refuses a patch with another end. -/
def checkSameEndpoint (p : Payload) (role : Endpoint) (key : String) (edge : Edge) :
    Except Error Unit :=
  if p.contradicts key (.text (edge.endpoint role)) then .error (.invalid (.endpointFixed role))
  else .ok ()

/-- An edge with the fields of a patch in place of its own. -/
def patchEdge (edge : Edge) (payload : Value) : Except Error Edge := do
  let p ← Payload.ofValue Payload.edgeSpellings payload
  checkSameEndpoint p .source "source_id" edge
  checkSameEndpoint p .target "target_id" edge
  if p.contradicts "id" edge.id then throw (.invalid .edgeIdFixed)
  let changes : Payload := ((p.erase "source_id").erase "target_id").erase "id"
  let unknown := changes.keys.filter fun key => !edgeFields.contains key
  if !unknown.isEmpty then throw (.invalid (.edgeFields (Text.sortedNames unknown)))
  let type ← match changes.get? "type" with
    | some value => Payload.edgeType value
    | none => pure edge.type
  return { edge with
    type := type
    label := (changes.get? "label").getD edge.label
    verb := (changes.get? "verb").getD edge.verb }

/-- Whether two edges of a diagram are one: their ids and ends agree. -/
def isSameEdge (e f : Edge) : Bool := e.id.identical f.id && e.joins f.source f.target

def withEdgeChanged (d : Diagram) (ref : Value) (payload : Value) : Except Error Diagram := do
  let edge ← d.resolve ref
  let changed ← patchEdge edge payload
  let edges := d.edges.map fun other => if isSameEdge other edge then changed else other
  { d with edges := edges }.refreshed

/-- The diagram without an edge, not laid out. -/
def removeEdge (d : Diagram) (edge : Edge) : Diagram :=
  { d with edges := d.edges.filter fun other => !isSameEdge other edge }

def withoutEdge (d : Diagram) (ref : Value) : Except Error Diagram := do
  (d.removeEdge (← d.resolve ref)).refreshed

/-! ## Layout -/

/-- The diagram laid out with options laid over its own. -/
def withOptions (d : Diagram) (payload : Value) : Except Error Diagram := do
  d.laidOut (← Payload.options payload d.options)

end Diagram

end BlockDiagram
