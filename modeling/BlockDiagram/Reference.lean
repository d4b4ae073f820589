import BlockDiagram.Text.Blank
import BlockDiagram.Text.Split
import BlockDiagram.Text.Word
import BlockDiagram.Value

/-!
# References inside attribute values

An interpolation is a dollar sign and, in braces, a non-empty body without braces. The body of an
interpolation, or an entry of a dependency list, may be the address of a block; `candidates` lists
the node ids that it may stand for, the most exact first. Which of them exists is for the caller to
see.

* `bodies`: the bodies of a text from left to right.
* `whole?`: the body of a text that is one interpolation and nothing else.
* `scan`: the interpolations of a value, depth first.
-/

namespace BlockDiagram.Reference

open Text

/-! ## Interpolations -/

/-- Whether a character may stand in the body of an interpolation. -/
def isPlain (c : Char) : Bool := c != '\x7b' && c != '\x7d'

/-- The body of an interpolation, given the text after its opening brace, and what follows. -/
def body? (cs : List Char) : Option (List Char × List Char) :=
  match cs.takeWhile isPlain, cs.dropWhile isPlain with
  | c :: body, '\x7d' :: rest => some (c :: body, rest)
  | _, _ => none

theorem eq_of_body? {cs body rest : List Char} (h : body? cs = some (body, rest)) :
    cs = body ++ '\x7d' :: rest := by
  unfold body? at h
  split at h
  · next c b r taken dropped =>
    simp only [Option.some.injEq, Prod.mk.injEq] at h
    obtain ⟨rfl, rfl⟩ := h
    rw [← taken, ← dropped, List.takeWhile_append_dropWhile]
  · simp at h

/-- The bodies of the interpolations in a text, from left to right. -/
def bodies (cs : List Char) : List (List Char) :=
  match cs with
  | [] => []
  | '$' :: '\x7b' :: rest =>
    match _found : body? rest with
    | some (body, following) => body :: bodies following
    | none => bodies ('\x7b' :: rest)
  | _ :: rest => bodies rest
termination_by cs.length
decreasing_by
  · have := congrArg List.length (eq_of_body? _found)
    simp only [List.length_append, List.length_cons] at this ⊢
    omega
  · simp
  · simp

def expressions (s : String) : List String :=
  (bodies s.toList).map fun body => String.ofList (strip body)

/-- The text after at most one line feed at its end is taken off. -/
def withoutFinalBreak (cs : List Char) : List Char :=
  match cs.reverse with
  | '\n' :: before => before.reverse
  | _ => cs

/-- The expression of a text that is one interpolation; a line feed may follow. -/
def wholeBody? (cs : List Char) : Option (List Char) :=
  match cs with
  | '$' :: '\x7b' :: rest =>
    match body? rest with
    | some (body, following) =>
      if following = [] ∨ following = ['\n'] then some (strip body) else none
    | none => none
  | _ => none

/-- The expression of a string that is one interpolation; a line feed may follow. -/
def whole? (s : String) : Option String := (wholeBody? s.toList).map String.ofList

/-- The expression of a string that is one interpolation of something, or else the other text. -/
def wholeOr (s other : String) : String :=
  match whole? s with
  | some "" => other
  | some expression => expression
  | none => other

/-! ## Addresses -/

/-- A text without its bracketed parts. A bracket that is not closed stays. -/
def withoutIndices (cs : List Char) : List Char :=
  match cs with
  | [] => []
  | '[' :: rest =>
    match _closing : rest.dropWhile (· != ']') with
    | _ :: following => withoutIndices following
    | [] => '[' :: withoutIndices rest
  | c :: rest => c :: withoutIndices rest
termination_by cs.length
decreasing_by
  · have shorter : (rest.dropWhile (· != ']')).length ≤ rest.length :=
      (List.dropWhile_sublist _).length_le
    rw [_closing] at shorter
    simp only [List.length_cons] at shorter ⊢
    omega
  · simp
  · simp

/-- Whether a text is identifiers joined by dots; a line feed may follow. -/
def isAddress (cs : List Char) : Bool :=
  (segments '.' (withoutFinalBreak cs)).all isIdentifier

/-- First segments that never name a block. -/
def outerRoots : List String := ["local", "each", "count", "self", "path", "terraform"]

/-- First segments of ids. -/
def idRoots : List String := ["resource", "data", "module", "var", "output"]

/-- The node id that the segments of an address imply, if any: as many leading segments as an id
of the kind has, or a resource's type and name. -/
def implied : List String → List String
  | root :: second :: rest =>
    if root = "resource" ∨ root = "data" then
      match rest with
      | third :: _ => [root ++ "." ++ second ++ "." ++ third]
      | [] => []
    else if root = "var" ∨ root = "module" ∨ root = "output" then [root ++ "." ++ second]
    else ["resource." ++ root ++ "." ++ second]
  | _ => []

/-- The node ids that an expression may stand for: the expression itself, the expression without
indices, and the id that its first segments imply. -/
def candidates (expression : String) : List String :=
  let path := strip expression.toList
  let address := withoutIndices path
  if isAddress address then
    let parts := (segments '.' address).map String.ofList
    if outerRoots.contains (parts.headD "") then []
    else ([String.ofList path, String.ofList address] ++ implied parts).eraseDups
  else []

/-! ## Scanning values -/

/-- One interpolation in a value, with the key of the nearest attribute around it. -/
structure Occurrence where
  key : Option String
  expression : String
  candidates : List String
deriving DecidableEq, Repr

mutual

/-- The interpolations of a value in order, depth first. -/
def scan : Value → Option String → List Occurrence
  | .text s, key => (expressions s).map fun expression =>
    ⟨key, expression, candidates expression⟩
  | .record fields, _ => scanFields fields
  | .list items, key => scanItems items key
  | _, _ => []

/-- The interpolations of a list's items. -/
def scanItems : List Value → Option String → List Occurrence
  | [], _ => []
  | item :: rest, key => scan item key ++ scanItems rest key

/-- The interpolations of a record's fields, each under its own key. -/
def scanFields : List (String × Value) → List Occurrence
  | [] => []
  | (key, value) :: rest => scan value (some key) ++ scanFields rest

end

/-- The node ids that an entry of a dependency list may stand for. -/
def dependencyCandidates : Value → List String
  | .text entry => candidates (wholeOr entry (trimmed entry))
  | _ => []

/-- The address by which configuration text names a node: a resource's without its first
segment. -/
def address (nodeId : String) : String :=
  let bare := wholeOr nodeId nodeId
  if "resource.".toList.isPrefixOf bare.toList then
    String.ofList (bare.toList.drop "resource.".length)
  else bare

end BlockDiagram.Reference
