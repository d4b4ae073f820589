import BlockDiagram.Block.Files
import BlockDiagram.Edit
import BlockDiagram.Polish
import BlockDiagram.Settings
import BlockDiagram.Store

/-!
# Diagrams kept by a service

A service keeps diagrams under ids and applies commands to them one after another. A command reads
the diagram, changes it and writes it back, all under a lock of the diagram's id; a lock lives no
longer than its diagram. A command that fails writes nothing.

* `Service.step`: what one step answers and leaves behind.
* `Service.run`: the steps of a list.
-/

namespace BlockDiagram

/-- Kept diagrams, and the ids that have a lock. -/
structure Service where
  store : Store Diagram
  locks : List String

/-- What can be asked of a kept diagram. -/
inductive Command where
  | get
  | delete
  | updateLayout (options : Value)
  | addNode (payload : Value)
  | updateNode (node : Value) (patch : Value)
  | deleteNode (node : Value)
  | addEdge (payload : Value)
  | updateEdge (ref : Value) (patch : Value)
  | deleteEdge (ref : Value)
  | enhance
  | generateCode (withHeader : Option Bool)
deriving Repr

/-- One step of a service: a new diagram under an unused id, or a command on an id. -/
inductive Step where
  | create (id : String) (configuration layout : Value)
  | on (id : String) (command : Command)
deriving Repr

/-- What a step answers. -/
inductive Answer where
  | nothing
  | diagram (d : Diagram)
  | polished (outcome : Diagram.Polished)
  | files (files : Table String)
deriving Repr

namespace Service

def make? (settings : Settings) : Except Error Service := do
  return ⟨← Store.make? Diagram settings.capacity, []⟩

def lock (s : Service) (id : String) : Service :=
  if s.locks.contains id then s else { s with locks := s.locks ++ [id] }

/-- The service without locks on some ids. -/
def unlock (s : Service) (ids : List String) : Service :=
  { s with locks := s.locks.filter fun id => !ids.contains id }

/-- The service with a diagram written; the locks of dropped diagrams go with them. -/
def write (s : Service) (id : String) (d : Diagram) : Service :=
  let (store, dropped) := s.store.set id d
  { s with store }.unlock dropped

/-- The diagram under an id. Without one the id has no lock either. -/
def load (s : Service) (id : String) : Service × Except Error Diagram :=
  match s.store.get id with
  | (some d, store) => ({ s with store }, .ok d)
  | (none, store) => ({ s with store }.unlock [id], .error (.missing (.diagram id)))

def filesOf (settings : Settings) (d : Diagram) (withHeader : Option Bool) :
    Except Error (Table String) :=
  d.files settings.extension (withHeader.getD settings.withHeader)

def edit? (settings : Settings) : Command → Option (Diagram → Except Error Diagram)
  | .updateLayout options => some fun d => d.withOptions options
  | .addNode payload => some fun d => d.withNode payload
  | .updateNode node patch => some fun d => d.withNodeChanged node patch settings.relayout
  | .deleteNode node => some fun d => d.withoutNode node
  | .addEdge payload => some fun d => d.withEdge payload
  | .updateEdge ref patch => some fun d => d.withEdgeChanged ref patch
  | .deleteEdge ref => some fun d => d.withoutEdge ref
  | _ => none

def apply (s : Service) (id : String) (edit : Diagram → Except Error Diagram) :
    Service × Except Error Answer :=
  match (s.lock id).load id with
  | (s, .error e) => (s, .error e)
  | (s, .ok d) =>
    match edit d with
    | .error e => (s, .error e)
    | .ok changed => (s.write id changed, .ok (.diagram changed))

/-- Takes the diagram under an id away. -/
def remove (s : Service) (id : String) : Service × Except Error Answer :=
  let (found, store) := (s.lock id).store.delete id
  let left := { s.lock id with store }.unlock [id]
  (left, if found then .ok .nothing else .error (.missing (.diagram id)))

/-- Asks the assistant about the diagram under an id. Without an assistant nothing changes. -/
def enhance (reply : Option Reply) (s : Service) (id : String) : Service × Except Error Answer :=
  match (s.lock id).load id with
  | (s, .error e) => (s, .error e)
  | (s, .ok d) =>
    match reply with
    | none => (s, .ok (.polished d.unpolished))
    | some reply =>
      let outcome := d.polished reply
      let after := if outcome.isPolished then s.write id outcome.diagram else s
      (after, .ok (.polished outcome))

/-- Applies a command to the diagram under an id. -/
def command (settings : Settings) (reply : Option Reply) (s : Service) (id : String)
    (c : Command) : Service × Except Error Answer :=
  match edit? settings c with
  | some edit => s.apply id edit
  | none =>
    match c with
    | .delete => s.remove id
    | .enhance => s.enhance reply id
    | .generateCode withHeader =>
      match s.load id with
      | (s, .ok d) => (s, (filesOf settings d withHeader).map .files)
      | (s, .error e) => (s, .error e)
    | _ =>
      match s.load id with
      | (s, .ok d) => (s, .ok (.diagram d))
      | (s, .error e) => (s, .error e)

/-- The diagram of a configuration with the settings' options and others laid over them. -/
def newDiagram (settings : Settings) (configuration layout : Value) : Except Error Diagram := do
  let options ← Payload.options layout (← settings.options)
  Configuration.drawn configuration options

def create (settings : Settings) (s : Service) (id : String) (configuration layout : Value) :
    Service × Except Error Answer :=
  match newDiagram settings configuration layout with
  | .ok d => (s.write id d, .ok (.diagram d))
  | .error e => (s, .error e)

/-- What one step answers, and the service after it. The reply is what the assistant would answer,
if there is an assistant. -/
def step (settings : Settings) (reply : Option Reply) (s : Service) :
    Step → Service × Except Error Answer
  | .create id configuration layout => s.create settings id configuration layout
  | .on id c => s.command settings reply id c

/-- The service after steps, each with its own settings and reply. -/
def run (s : Service) : List (Settings × Option Reply × Step) → Service
  | [] => s
  | (settings, reply, step) :: rest => run (Service.step settings reply s step).1 rest

end Service

end BlockDiagram
