import BlockDiagram.Error

/-!
# Payloads

A payload is a mapping from a client. Some of its keys have other spellings; of two spellings of
one key the later one counts, at the place of the earlier one. `Payload.node` and
`Payload.options` read a whole node and layout options.
-/

namespace BlockDiagram

/-- A mapping from a client, its keys in one spelling. -/
abbrev Payload := Table Value

namespace Payload

/-- Other spellings of a node's keys. -/
def nodeSpellings : Table String := [("resourceType", "resource_type")]

/-- Other spellings of an edge's keys. -/
def edgeSpellings : Table String := [("sourceId", "source_id"), ("targetId", "target_id")]

/-- Other spellings of the keys of layout options. -/
def optionSpellings : Table String := [
  ("rankdir", "direction"), ("nodesep", "node_spacing"), ("nodeSpacing", "node_spacing"),
  ("ranksep", "rank_spacing"), ("rankSpacing", "rank_spacing"), ("marginx", "margin_x"),
  ("marginX", "margin_x"), ("marginy", "margin_y"), ("marginY", "margin_y")]

def ofValue (spellings : Table String) : Value → Except Error Payload
  | .record fields =>
    .ok (Table.ofList (fields.map fun (key, value) => ((spellings.get? key).getD key, value)))
  | _ => .error (.invalid .payload)

/-- The value under a key, null when there is none. -/
def entry (p : Payload) (key : String) : Value := (Table.get? p key).getD .null

/-- The text under a key, if it is a text that is not blank. -/
def text? (p : Payload) (key : String) : Option String :=
  match p.entry key with
  | .text s => if Text.isBlankText s then none else some s
  | _ => none

/-- Whether a key holds neither null nor this text. -/
def contradicts (p : Payload) (key : String) (expected : Value) : Bool :=
  !(p.entry key).isNull && !(p.entry key).same expected

def isAtMostZero (value : Value) : Bool :=
  match value.number? with
  | some x => x.lt (.whole 0) || x.eq (.whole 0)
  | none => false

def isBelowZero (value : Value) : Bool :=
  match value.number? with
  | some x => x.lt (.whole 0)
  | none => false

/-- Refuses a key that holds something other than a number; null is none. -/
def checkNumber (p : Payload) (key : String) : Except Error Unit :=
  if (p.entry key).isNull || (p.entry key).isNumber then .ok ()
  else .error (.invalid (.notNumber key))

/-- Refuses a key that holds something other than a positive number; null is none. -/
def checkSize (p : Payload) (key : String) : Except Error Unit := do
  p.checkNumber key
  if isAtMostZero (p.entry key) then .error (.invalid (.notPositive key))

/-- Refuses a key that holds something other than a number that is not negative. -/
def checkSpacing (p : Payload) (key : String) : Except Error Unit := do
  p.checkNumber key
  if isBelowZero (p.entry key) then .error (.invalid (.negative key))

/-! ## Nodes -/

def kind (value : Value) : Except Error Kind :=
  match value with
  | .text s => match Kind.ofText? s with
    | some kind => .ok kind
    | none => .error (.invalid (.kind value))
  | _ => .error (.invalid (.kind value))

/-- The kind of a node payload, under its key or an older one. -/
def nodeKind (p : Payload) : Except Error Kind :=
  let given := if (p.entry "kind").isNull then p.entry "type" else p.entry "kind"
  if given.isNull then .error (.invalid .kindRequired) else kind given

def lastSegment (id : String) : String := (Text.splitAt '.' id).getLastD ""

/-- The name of a node payload; without one, the last segment of its id. -/
def nodeName (p : Payload) : Except Error String :=
  let given := match p.entry "name", p.entry "id" with
    | name, .text id => if name.isTruthy then name else .text (lastSegment id)
    | name, _ => name
  match text? [("name", given)] "name" with
  | some name => .ok name
  | none => .error (.invalid .nameRequired)

/-- The type of a node payload, of the kinds that have one. -/
def nodeType (p : Payload) (kind : Kind) : Except Error (Option String) :=
  if kind.isTyped then
    match p.text? "resource_type" with
    | some type => .ok (some type)
    | none => .error (.invalid (.typeRequired kind))
  else .ok none

def node (value : Value) : Except Error Node := do
  let p ← ofValue nodeSpellings value
  let kind ← p.nodeKind
  let name ← p.nodeName
  let type ← p.nodeType kind
  let id := kind.nodeId (some name) type
  if p.contradicts "id" (.text id) then throw (.invalid (.nodeId (p.entry "id") id))
  let config := (p.entry "config").orElse (.record [])
  if !config.isRecord then throw (.invalid .config)
  p.checkNumber "x"
  p.checkNumber "y"
  p.checkSize "width"
  p.checkSize "height"
  return Node.completed
    { id := id
      kind := kind
      name := some name
      resourceType := type
      label := p.entry "label"
      config := config
      x := (p.entry "x").orElse (.int 0)
      y := (p.entry "y").orElse (.int 0)
      width := p.entry "width"
      height := p.entry "height"
      icon := p.entry "icon" }

/-! ## Edges -/

/-- The type of an edge; null is a reference. -/
def edgeType (value : Value) : Except Error EdgeType :=
  if value.isNull then .ok .reference
  else match EdgeType.ofValue? value with
    | some type => .ok type
    | none => .error (.invalid (.edgeType value))

/-! ## Layout options -/

/-- The direction of layout options; null keeps the given one. -/
def direction (p : Payload) (base : Direction) : Except Error Direction :=
  let given := p.entry "direction"
  if given.isNull then .ok base
  else match Direction.ofText? given.shown with
    | some direction => .ok direction
    | none => .error (.invalid (.direction given))

/-- A spacing of layout options; null keeps the given one. -/
def spacing (p : Payload) (key : String) (base : Value) : Except Error Value := do
  p.checkSpacing key
  return if (p.entry key).isNull then base else p.entry key

/-- Layout options laid over others. -/
def options (value : Value) (base : Options) : Except Error Options :=
  if value.isTruthy then do
    let p ← ofValue optionSpellings value
    let direction ← p.direction base.direction
    let nodeSpacing ← p.spacing "node_spacing" base.nodeSpacing
    let rankSpacing ← p.spacing "rank_spacing" base.rankSpacing
    let marginX ← p.spacing "margin_x" base.marginX
    let marginY ← p.spacing "margin_y" base.marginY
    return ⟨direction, nodeSpacing, rankSpacing, marginX, marginY⟩
  else .ok base

end Payload

end BlockDiagram
