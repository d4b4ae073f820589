import BlockDiagram.Error
import BlockDiagram.Text.Digits
import BlockDiagram.Text.Encoding
import BlockDiagram.Text.Split

/-!
# Routes

A route is what a method and a path ask for. Paths are matched segment by segment; a hole takes any
segment that is not empty, and a word at the end of a path may have one line feed behind it. The
first pattern of the method decides. A path that nothing matches is sent on without the slashes at
its end.

* `Url.path`: the path that a request line stands for.
* `Route.find`: the route of a request, or why there is none.
-/

namespace BlockDiagram.Api

open Text (hexDigit?)

/-! ## Paths of request lines -/

namespace Url

/-- The bytes of a text in which a percent sign with two digits stands for one byte. -/
def bytes : List Char → List UInt8
  | [] => []
  | '%' :: a :: b :: rest =>
    match hexDigit? a, hexDigit? b with
    | some high, some low => UInt8.ofNat (high * 16 + low) :: bytes rest
    | _, _ => (String.singleton '%').toUTF8.toList ++ bytes (a :: b :: rest)
  | c :: rest => (String.singleton c).toUTF8.toList ++ bytes rest

def decoded (s : String) : String := String.ofList (Text.ofUtf8 (bytes s.toList))

/-- Segments with the single and double dots among them followed. -/
def withoutDots : List String → List String → List String
  | walked, [] => walked
  | walked, "." :: rest => withoutDots walked rest
  | walked, ".." :: rest => withoutDots (if walked = [""] then walked else walked.dropLast) rest
  | walked, part :: rest => withoutDots (walked ++ [part]) rest

def followed (path : String) : String :=
  Text.join "/" (withoutDots [] (Text.splitAt '/' path))

/-- Whether a character can stand in the name of a scheme behind its first letter. -/
def isSchemeChar (c : Char) : Bool := c.isAlphanum || c == '+' || c == '.' || c == '-'

/-- A request line that has the name of a scheme split off: a letter and what follows it up to a
colon. A colon at the start goes with an empty name. -/
def splitScheme (line : List Char) : List Char × List Char :=
  let name := line.takeWhile isSchemeChar
  match line.drop name.length with
  | ':' :: rest => if name.head?.all Char.isAlpha then (name, rest) else ([], line)
  | _ => ([], line)

/-- What follows the scheme, with the place split off that two slashes announce. -/
def splitPlace : List Char → List Char × List Char
  | '/' :: '/' :: rest => rest.span fun c => c != '/' && c != '?' && c != '#'
  | line => ([], line)

/-- The parts of a request line: its scheme, the place behind two slashes, and its path, which ends
where a query or a fragment begins. -/
structure Parts where
  scheme : List Char
  place : List Char
  path : List Char
deriving DecidableEq, Repr

def parts (line : String) : Parts :=
  let (scheme, rest) := splitScheme line.toList
  let (place, rest) := splitPlace rest
  ⟨scheme, place, rest.takeWhile fun c => c != '?' && c != '#'⟩

namespace Parts

/-- The host and the port of a place, without the name of a user. -/
def hostAndPort (p : Parts) : List Char × List Char :=
  let (host, rest) := (p.place.reverse.takeWhile (· != '@')).reverse.span (· != ':')
  (host, rest.drop 1)

/-- Whether a request line says where it goes: it has a scheme and a host. -/
def isAbsolute (p : Parts) : Bool := !p.scheme.isEmpty && !p.hostAndPort.1.isEmpty

/-- Whether the parts can be told apart again: a port is a number, and a path without anything
before it does not begin like a place or a scheme. -/
def isClear (p : Parts) : Bool :=
  p.hostAndPort.2.all Char.isDigit
    && (!p.scheme.isEmpty || p.place.any (fun c => c != '@' && c != ':')
      || !("//".toList.isPrefixOf p.path || ":".toList.isPrefixOf p.path))

def schemes : List String := ["http", "https"]

/-- Whether a request can be sent to where it goes. -/
def isServed (p : Parts) : Bool :=
  !p.isAbsolute || schemes.contains (String.ofList (p.scheme.map Char.toLower))

end Parts

/-- Refuses a text that is no request line: one with a control character or with unclear parts, and
one whose scheme nobody serves. -/
def check (line : String) : Except Error Unit :=
  if line.toList.any (fun c => c.toNat < 32 || c.toNat == 127) || !(parts line).isClear then
    .error (.defect .badAddress)
  else if !(parts line).isServed then .error (.defect .absentKey)
  else .ok ()

/-- The path of a request line as it is written. A line that does not say where it goes is a path
below the root, whatever it starts with. -/
def written (line : String) : String :=
  let p := parts line
  let path := if p.isAbsolute then p.path.drop 1 else p.path.dropWhile (· == '/')
  String.ofList ('/' :: path)

/-- The path of a request line. Dots are followed before escapes are decoded, and escapes are
decoded twice. -/
def path (line : String) : String := decoded (decoded (followed (written line)))

/-- The path that a request is sent on to. A percent sign in it goes out as it is, so that escapes
are decoded as in a request line; every other character arrives unchanged. -/
def sentOn (path : String) : String := decoded (decoded (followed path))

def withoutFinalSlashes (path : String) : String :=
  String.ofList (path.toList.reverse.dropWhile (· == '/')).reverse

end Url

/-! ## Routes -/

/-- What a request asks for. -/
inductive Route where
  | health
  | makeDiagram
  | getDiagram (id : String)
  | deleteDiagram (id : String)
  | updateLayout (id : String)
  | addNode (id : String)
  | updateNode (id node : String)
  | deleteNode (id node : String)
  | addConnection (id : String)
  | updateConnection (id edge : String)
  | deleteConnection (id edge : String)
  | enhance (id : String)
  | generateCode
  | resourceCode (node : String)
  | moduleCode (node : String)
  | preview
  | exportCode
  /-- A page that describes the service. -/
  | page
deriving DecidableEq, Repr

namespace Route

/-- A method with the routes that it has on a path. -/
structure Pattern where
  method : String
  route? : List String → Option Route

/-- A hole of a pattern, if a segment can fill it. -/
def fill (segment : String) (route : Route) : Option Route :=
  if segment = "" then none else some route

/-- Whether the last segment of a path is a word. One line feed may follow it. -/
def isLastWord (word segment : String) : Bool := segment == word || segment == word ++ "\n"

/-- A pattern below the diagrams' path. -/
def onDiagrams (method : String) (route? : List String → Option Route) : Pattern :=
  ⟨method, fun
    | "" :: "api" :: "diagram" :: rest => route? rest
    | _ => none⟩

/-- A pattern below the code generator's path. -/
def onCode (method : String) (route? : List String → Option Route) : Pattern :=
  ⟨method, fun
    | "" :: "api" :: "code-generator" :: rest => route? rest
    | _ => none⟩

/-- A pattern for a kept diagram as a whole. -/
def onDiagram (method : String) (make : String → Route) : Pattern :=
  onDiagrams method fun
    | [id] => fill id (make id)
    | _ => none

/-- A pattern for one aspect of a kept diagram. -/
def onAspect (method aspect : String) (make : String → Route) : Pattern :=
  onDiagrams method fun
    | [id, last] => if isLastWord aspect last then fill id (make id) else none
    | _ => none

/-- A pattern for a part of a kept diagram. -/
def onPart (method aspect : String) (make : String → String → Route) : Pattern :=
  onDiagrams method fun
    | [id, word, part] => if word = aspect && part != "" then fill id (make id part) else none
    | _ => none

/-- A pattern for a fixed path below the diagrams' path. -/
def onDiagramsWord (word : String) (route : Route) : Pattern :=
  onDiagrams "POST" fun
    | [last] => if isLastWord word last then some route else none
    | _ => none

/-- A pattern for a fixed path of the code generator. -/
def onCodeWord (word : String) (route : Route) : Pattern :=
  onCode "POST" fun
    | [last] => if isLastWord word last then some route else none
    | _ => none

def onCodeNode (word : String) (make : String → Route) : Pattern :=
  onCode "POST" fun
    | [first, node] => if first = word then fill node (make node) else none
    | _ => none

/-- A pattern for the pages that describe the service. -/
def onPage (method : String) : Pattern :=
  ⟨method, fun
    | ["", last] =>
      if ["openapi.json", "docs", "redoc"].any (isLastWord · last) then some page else none
    | ["", "docs", last] => if isLastWord "oauth2-redirect" last then some page else none
    | _ => none⟩

/-- All patterns in the order in which they are tried. -/
def patterns : List Pattern := [
  onPage "GET",
  onPage "HEAD",
  onDiagramsWord "generate" makeDiagram,
  onDiagram "GET" getDiagram,
  onDiagram "DELETE" deleteDiagram,
  onAspect "PUT" "layout" updateLayout,
  onAspect "POST" "nodes" addNode,
  onPart "PUT" "nodes" updateNode,
  onPart "DELETE" "nodes" deleteNode,
  onAspect "POST" "connections" addConnection,
  onPart "PUT" "connections" updateConnection,
  onPart "DELETE" "connections" deleteConnection,
  onAspect "POST" "enhance" enhance,
  onCodeWord "generate" generateCode,
  onCodeNode "resource" resourceCode,
  onCodeNode "module" moduleCode,
  onCodeWord "preview" preview,
  onCodeWord "export" exportCode,
  ⟨"GET", fun
    | ["", last] => if isLastWord "health" last then some health else none
    | _ => none⟩]

/-- Why a request has no route. -/
inductive Absent where
  | path
  | method
deriving DecidableEq, Repr

/-- The route of a method on a path that is taken as it is. -/
def match? (method path : String) : Except Absent Route :=
  let segments := Text.splitAt '/' path
  match patterns.findSome? fun p => if p.method = method then p.route? segments else none with
  | some route => .ok route
  | none =>
    .error (if patterns.any fun p => (p.route? segments).isSome then .method else .path)

/-- How often a request is sent on at most. -/
def forwardLimit : Nat := 20

/-- The route of a method on a path, sent on no more often than allowed. -/
def findWithin (method : String) : Nat → String → Except Absent Route
  | 0, path => match? method path
  | allowed + 1, path =>
    match match? method path with
    | .error .path =>
      let shorter := Url.withoutFinalSlashes path
      match match? method shorter with
      | .error .path => .error .path
      | _ => findWithin method allowed (Url.sentOn shorter)
    | result => result

def find (method path : String) : Except Absent Route := findWithin method forwardLimit path

def readsBody : Route → Bool
  | health | page | getDiagram _ | deleteDiagram _ | deleteNode _ _ | deleteConnection _ _
  | enhance _ => false
  | _ => true

end Route

end BlockDiagram.Api
