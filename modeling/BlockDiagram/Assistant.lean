import BlockDiagram.Error

/-!
# Asking an assistant

A client of a chat service sends messages in one request and takes the text out of the reply. The
exchange itself is outside; here are the request, and what a response comes to.
-/

namespace BlockDiagram

/-- A client of a chat service. -/
structure Assistant where
  address : String
  model : Value
  key : Value
  temperature : Value
  timeout : Value
deriving Repr

def withoutSlashes (address : String) : String :=
  String.ofList (address.toList.reverse.dropWhile (· == '/')).reverse

namespace Assistant

/-- The temperature of a client that names none. -/
def defaultTemperature : Value := .float (Binary64.ofRat (mkRat 1 5))

/-- The seconds that a client waits that names none. -/
def defaultTimeout : Value := .float (Binary64.ofRat 60)

/-- A client of the service at an address, which must be a text. -/
def make (address model key temperature timeout : Value) : Except Error Assistant :=
  match address with
  | .text s => .ok ⟨withoutSlashes s, model, key, temperature, timeout⟩
  | _ => .error (.defect .absentOperation)

/-- The address that a request goes to. -/
def target (client : Assistant) : String := client.address ++ "/chat/completions"

/-- The headers of a request: the key, if there is one. -/
def headers (client : Assistant) : Value :=
  if client.key.isTruthy then
    .record [("Authorization", .text ("Bearer " ++ client.key.shown))]
  else .record []

def body (client : Assistant) (messages : Value) : Value :=
  .record [("model", client.model), ("messages", messages), ("temperature", client.temperature),
    ("response_format", .record [("type", .text "json_object")])]

def entry (value : Value) (key : String) : Except Error Value :=
  match value with
  | .record fields =>
    match Table.get? fields key with
    | some found => .ok found
    | none => .error (.defect .absentKey)
  | _ => .error (.defect .wrongType)

/-- The first item of a list in a response. A text has characters for items. -/
def firstItem (value : Value) : Except Error Value :=
  match value with
  | .list (first :: _) => .ok first
  | .list [] => .error (.defect .absentItem)
  | .text s => match s.toList with
    | c :: _ => .ok (.text (String.singleton c))
    | [] => .error (.defect .absentItem)
  | .record _ => .error (.defect .absentKey)
  | _ => .error (.defect .wrongType)

/-- Whether a status is that of a failure, which it is from 400 on. Only a number is a status. -/
def isFailure (status : Value) : Except Error Bool :=
  match status.number? with
  | some n => .ok ((Value.Number.whole 400).lt n || (Value.Number.whole 400).eq n)
  | none => .error (.defect .wrongType)

/-- The content of a response, if its status is not that of a failure. -/
def content (status response : Value) : Except Error Value := do
  if ← isFailure status then throw (.defect .badStatus)
  let choices ← entry response "choices"
  let message ← entry (← firstItem choices) "message"
  entry message "content"

end Assistant

end BlockDiagram
