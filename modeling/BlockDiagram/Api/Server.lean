import BlockDiagram.Api.Route
import BlockDiagram.Api.Schema
import BlockDiagram.CodeCheck
import BlockDiagram.Error.Message
import BlockDiagram.Export
import BlockDiagram.Json.Encoding
import BlockDiagram.Json.Reader
import BlockDiagram.Service
import BlockDiagram.Snapshot.Reader
import BlockDiagram.Validity

/-!
# Answering requests

A server holds a service and the disk that it exports to. A request is routed, its body is read by
the schema of its route, and the outcome becomes a response: an answer of the engine has the status
of its family, a defect is a plain failure.

* `Server.respond`: the response to a request, and the server after it.
-/

namespace BlockDiagram.Api

/-- What a request carries. -/
inductive Content where
  | none
  | value (v : Value)
  | text (s : String)
deriving Repr

/-- A request. -/
structure Request where
  method : String
  line : String
  content : Content
deriving Repr

/-- What a response carries. -/
inductive Payload where
  | json (v : Value)
  | plain (s : String)
deriving Repr

/-- A response. -/
structure Response where
  status : Nat
  payload : Payload
deriving Repr

/-- A service, its disk, and the number of diagrams that it has made. -/
structure Server where
  service : Service
  disk : Disk
  made : Nat

/-- What a server is given: settings, the assistant's reply, ids for new diagrams, and the directory
that exports go to. -/
structure Surroundings where
  settings : Settings
  reply : Option Reply
  newId : Nat → String
  exportRoot : List String

/-! ## Bodies -/

/-- A refusal for faults at places in a body. -/
def refusal (places : List Place) : Error :=
  .invalid (.request (places.map fun place => Text.join "." ("body" :: place)))

/-- What a body comes to: its value, which is null without a body, or the failure of one that is no
JSON. -/
abbrev Body := Except Error Value

/-- What a text that is sent as JSON comes to. Nothing comes of bytes that are no text, nor of a
number that is too long. -/
def textBody? (s : String) : Option Body := do
  match Json.document (← Json.decoded? s.toUTF8.toList) with
  | .ok value => return .ok value
  | .error (.malformed offset) => return .error (refusal [[Nat.repr offset]])
  | .error .overlong => none

def body? (content : Content) : Option Body :=
  match content with
  | .none => some (.ok .null)
  | .value v => some (.ok v)
  | .text s => if s = "" then some (.ok .null) else textBody? s

def required (schema : Schema) (body : Body) : Except Error (Table Value) := do
  match schema.read (← body) with
  | .ok fields => return fields
  | .error places => throw (refusal places)

/-- The fields of a body that may be missing. -/
def unlessMissing (schema : Schema) (body : Body) : Except Error (Table Value) := do
  if (← body).isNull then return []
  required schema body

/-! ## Responses -/

mutual

/-- Whether a value holds a number that is not finite. -/
def hasUnwritable : Value → Bool
  | .float x => !x.isFinite
  | .list items => anyUnwritable items
  | .record fields => anyFieldUnwritable fields
  | _ => false

/-- Whether some item holds a number that is not finite. -/
def anyUnwritable : List Value → Bool
  | [] => false
  | item :: rest => hasUnwritable item || anyUnwritable rest

/-- Whether some field holds a number that is not finite. -/
def anyFieldUnwritable : List (String × Value) → Bool
  | [] => false
  | (_, value) :: rest => hasUnwritable value || anyFieldUnwritable rest

end

def isKeptBack (key : String) : Bool := "_sa".toList.isPrefixOf key.toList

mutual

/-- A value without the fields whose keys are kept back. -/
def published : Value → Value
  | .list items => .list (publishedItems items)
  | .record fields => .record (publishedFields fields)
  | value => value

/-- Items without the fields whose keys are kept back. -/
def publishedItems : List Value → List Value
  | [] => []
  | item :: rest => published item :: publishedItems rest

/-- Fields without those whose keys are kept back. -/
def publishedFields : List (String × Value) → List (String × Value)
  | [] => []
  | (key, value) :: rest =>
    if isKeptBack key then publishedFields rest
    else (key, published value) :: publishedFields rest

end

/-- The response to a request that went wrong in a way that nobody foresaw. -/
def breakdown : Response := ⟨500, .plain "Internal Server Error"⟩

/-- A response with a value, which must have a JSON text. -/
def respondWith (status : Nat) (value : Value) : Response :=
  if hasUnwritable value then breakdown else ⟨status, .json value⟩

def statusOf : Error → Nat
  | .invalid _ => 400
  | .missing _ => 404
  | .unwritable _ => 422
  | .unlaid _ => 500
  | .defect _ => 500

def failureResponse (e : Error) : Response :=
  match e.code? with
  | some code => respondWith (statusOf e) (.record [
      ("status", .text "error"), ("code", .text code), ("message", .text e.message),
      ("details", .list e.details)])
  | none => breakdown

/-- The response to a request without a route. -/
def absentResponse : Route.Absent → Response
  | .path => ⟨404, .json (.record [("detail", .text "Not Found")])⟩
  | .method => ⟨405, .json (.record [("detail", .text "Method Not Allowed")])⟩

/-- The response to a request whose body cannot be read. -/
def unreadableResponse : Response :=
  ⟨400, .json (.record [("detail", .text "There was an error parsing the body")])⟩

def outcomeResponse : Except Error Value → Response
  | .ok value => respondWith 200 (published value)
  | .error e => failureResponse e

/-- The fields of a response about a diagram. -/
def diagramFields (id : String) (d : Diagram) : List (String × Value) :=
  [("success", .bool true), ("diagram", .record (("id", .text id) :: d.snapshotFields))]

/-- The fields of a response about a polished diagram. -/
def polishedFields (id : String) (outcome : Diagram.Polished) : List (String × Value) :=
  diagramFields id outcome.diagram ++ [("polished", .bool outcome.isPolished),
    ("groups", .list outcome.groups), ("annotations", .list outcome.annotations)]

/-- What a response says about an answer of the service. -/
def answerValue (id : String) : Answer → Value
  | .nothing => .record [("success", .bool true), ("id", .text id)]
  | .diagram d => .record (diagramFields id d)
  | .polished outcome => .record (polishedFields id outcome)
  | .files files => .record (files.map fun (name, text) => (name, .text text))

def dataValue (fields : List (String × Value)) : Value :=
  .record [("success", .bool true), ("data", .record fields)]

def filesValue (files : Table String) : Value :=
  .record (files.map fun (name, text) => (name, .text text))

namespace Server

/-! ## Diagrams -/

/-- Applies a command to a kept diagram. -/
def command (env : Surroundings) (server : Server) (id : String) (c : Command) :
    Server × Except Error Value :=
  let (service, answer) := server.service.command env.settings env.reply id c
  ({ server with service }, answer.map (answerValue id))

/-- Applies a command with a body to a kept diagram. -/
def commandWith (env : Surroundings) (server : Server) (id : String)
    (fields : Except Error (Table Value)) (make : Value → Command) :
    Server × Except Error Value :=
  match fields with
  | .ok fields => server.command env id (make (.record fields))
  | .error e => (server, .error e)

/-- A mapping without the fields that are null. -/
def withoutNulls (value : Value) : Value :=
  match value with
  | .record fields => .record (fields.filter fun field => !field.2.isNull)
  | value => value

/-- Makes a diagram, and polishes it unless the body says no. -/
def makeDiagram (env : Surroundings) (server : Server) (fields : Table Value) :
    Server × Except Error Value :=
  let given := Value.record fields
  let id := env.newId server.made
  let layout := withoutNulls (given.field "layout_options")
  match server.service.create env.settings id (given.field "parsed_data") layout with
  | (service, .error e) => ({ server with service }, .error e)
  | (service, .ok answer) =>
    let after := { server with service, made := server.made + 1 }
    match fields.get? "enhance" with
    | some (.bool false) => (after, .ok (answerValue id answer))
    | _ => after.command env id .enhance

/-! ## Code -/

/-- The diagram that a body names by id or gives as a snapshot. -/
def diagramOf (server : Server) (fields : Table Value) : Server × Except Error Diagram :=
  let given := Value.record fields
  match given.field "diagram_id" with
  | .text id =>
    if id = "" then (server, snapshotOf given)
    else
      let (service, result) := server.service.load id
      ({ server with service }, result)
  | _ => (server, snapshotOf given)
where
  /-- The diagram of the snapshot in a body, which must be valid. Within one body what is not a
  number is the same as itself, also as the id of an edge. -/
  snapshotOf (given : Value) : Except Error Diagram := do
    let data := given.field "diagram_data"
    if data.isNull then throw (.invalid .noDiagram)
    let d ← Snapshot.diagramBy Value.identical data
    let _ ← d.checked
    return d

def headerOf (fields : Table Value) : Option Bool :=
  match fields.get? "include_terraform_block" with
  | some (.bool b) => some b
  | _ => none

/-- The files of the diagram that a body names. -/
def filesOf (env : Surroundings) (server : Server) (fields : Table Value) :
    Server × Except Error (Table String) :=
  let (server, result) := server.diagramOf fields
  (server, result.bind fun d => Service.filesOf env.settings d (headerOf fields))

def generateCode (env : Surroundings) (server : Server) (fields : Table Value) :
    Server × Except Error Value :=
  let (server, result) := server.filesOf env fields
  (server, result.map fun files => dataValue [("generatedCode", filesValue files)])

def nodeCode (node : String) (kinds : List Kind) (server : Server) (fields : Table Value) :
    Server × Except Error Value :=
  let (server, result) := server.diagramOf fields
  (server, do
    let code ← (← result).blockAt (.text node) kinds
    return dataValue [("id", .text node), ("code", .text code)])

/-- The changes from files that a body gives. -/
def changesValue (fields : Table Value) (files : Table String) : Value :=
  match fields.get? "original_code" with
  | some (.record given) =>
    let before : Table String := given.filterMap fun (name, value) =>
      value.text?.map fun text => (name, text)
    .record ((Files.changes "" before files).map fun (name, change) =>
      (name, change.report .text))
  | _ => .null

/-- The code of all files with the changes and a check of each. -/
def preview (env : Surroundings) (server : Server) (fields : Table Value) :
    Server × Except Error Value :=
  let (server, result) := server.filesOf env fields
  (server, result.map fun files =>
    let checks := files.map fun (name, text) => (name, CodeCheck.report (.text text))
    dataValue [("generatedCode", filesValue files), ("diff", changesValue fields files),
      ("checks", .record checks)])

/-- What a response says about an export. -/
def exportValue (directory : List String) (entries : List Export.Entry) : Value :=
  dataValue [("outputDirectory", .text (Path.render directory)),
    ("files", .list (entries.map fun entry =>
      .record [("filename", .text entry.name), ("path", .text (Path.render entry.path))]))]

/-- Writes files below the export root. -/
def exportCode (env : Surroundings) (server : Server) (fields : Table Value) :
    Server × Except Error Value :=
  let given := Value.record fields
  let files : Table String := match given.field "generated_code" with
    | .record files => files.filterMap fun (name, value) => value.text?.map fun text => (name, text)
    | _ => []
  if files.isEmpty then (server, .error (.invalid .noCode))
  else
    match Export.target env.exportRoot (given.field "output_directory").shown with
    | .error e => (server, .error e)
    | .ok directory =>
      let (disk, result) := Export.write server.disk directory files
      ({ server with disk }, result.map (exportValue directory))

/-! ## Requests -/

/-- Applies an operation to the fields of a body. -/
def withBody (schema : Schema) (body : Body) (server : Server)
    (operation : Server → Table Value → Server × Except Error Value) :
    Server × Except Error Value :=
  match required schema body with
  | .ok fields => operation server fields
  | .error e => (server, .error e)

/-- The outcome of a route, and the server after it. The pages about the service have no content
here. -/
def outcome (env : Surroundings) (server : Server) (body : Body) :
    Route → Server × Except Error Value
  | .health => (server, .ok (.record [("status", .text "ok")]))
  | .makeDiagram => server.withBody diagramSchema body (makeDiagram env)
  | .getDiagram id => server.command env id .get
  | .deleteDiagram id => server.command env id .delete
  | .updateLayout id =>
    server.commandWith env id (unlessMissing layoutSchema body) fun fields =>
      .updateLayout (withoutNulls fields)
  | .addNode id => server.commandWith env id (required nodeSchema body) .addNode
  | .updateNode id node =>
    server.commandWith env id (required nodeSchema body) (.updateNode (.text node))
  | .deleteNode id node => server.command env id (.deleteNode (.text node))
  | .addConnection id => server.commandWith env id (required connectionSchema body) .addEdge
  | .updateConnection id edge =>
    server.commandWith env id (required connectionPatchSchema body) (.updateEdge edge)
  | .deleteConnection id edge => server.command env id (.deleteEdge edge)
  | .enhance id => server.command env id .enhance
  | .generateCode => server.withBody codeSchema body (generateCode env)
  | .resourceCode node =>
    server.withBody codeSchema body (nodeCode node [.resource, .dataSource])
  | .moduleCode node => server.withBody codeSchema body (nodeCode node [.moduleCall])
  | .preview => server.withBody previewSchema body (preview env)
  | .exportCode => server.withBody exportSchema body (exportCode env)
  | .page => (server, .ok (.text ""))

/-- The answer to a request, and the server after it. -/
def answer (env : Surroundings) (server : Server) (request : Request) : Server × Response :=
  match Route.find request.method (Url.path request.line) with
  | .error absent => (server, absentResponse absent)
  | .ok route =>
    match if route.readsBody then body? request.content else some (.ok .null) with
    | none => (server, unreadableResponse)
    | some body =>
      let (server, result) := server.outcome env body route
      (server, outcomeResponse result)

/-- The response to a request, and the server after it. A request for the head alone gets no
more. -/
def respond (env : Surroundings) (server : Server) (request : Request) : Server × Response :=
  let (server, response) := server.answer env request
  (server, if request.method = "HEAD" then { response with payload := .plain "" } else response)

end Server

end BlockDiagram.Api
