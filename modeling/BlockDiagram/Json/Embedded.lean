import BlockDiagram.Json.Reader
import BlockDiagram.Text.Blank

/-!
# Objects inside prose

An answer in prose may hold a JSON object, plain, in a code fence, or amid other text. First the
text as a whole is read, without the fence around it; if that is no JSON, then the part from the
first opening to the last closing brace.

* `Json.withoutFences`: a text without the fence around it.
* `Json.embedded?`: the fields of the object, none if there is no object; unless a number in the
  text is too long to be read.
-/

namespace BlockDiagram.Json

open Text

def fence : List Char := ['\x60', '\x60', '\x60']

/-- A text without a fence at its start, its language tag and the white space after it. -/
def withoutOpening (cs : List Char) : List Char :=
  if fence.isPrefixOf cs then
    let rest := cs.drop fence.length
    let tag := "json".toList
    stripLeft (if tag.isPrefixOf rest then rest.drop tag.length else rest)
  else cs

/-- A text without a fence at its end and the white space before it. -/
def withoutClosing (cs : List Char) : List Char :=
  if fence.isPrefixOf cs.reverse then stripRight (cs.take (cs.length - fence.length)) else cs

/-- A text without the white space and the fence around it. -/
def withoutFences (cs : List Char) : List Char :=
  withoutClosing (strip (withoutOpening (strip cs)))

/-- The part of a text from its first opening to its last closing brace. -/
def braceSpan? (cs : List Char) : Option (List Char) :=
  match ((cs.dropWhile (· != '\x7b')).reverse.dropWhile (· != '\x7d')).reverse with
  | [] => none
  | span => some span

/-- The fields of a record; anything else has none. -/
def fieldsOf : Value → List (String × Value)
  | .record fields => fields
  | _ => []

/-- The fields of the object that a whole text is. A text that is no JSON has none. -/
def fieldsIn? (cs : List Char) : Option (List (String × Value)) :=
  match read (String.ofList cs) with
  | .ok value => some (fieldsOf value)
  | .error (.malformed _) => some []
  | .error .overlong => none

/-- The fields of the object in a text without fences. -/
def embeddedIn? (cs : List Char) : Option (List (String × Value)) :=
  match read (String.ofList cs) with
  | .ok value => some (fieldsOf value)
  | .error (.malformed _) =>
    match braceSpan? cs with
    | none => some []
    | some span => fieldsIn? span
  | .error .overlong => none

/-- The fields of the object in an answer; an answer that is no text has none. -/
def embedded? : Value → Option (List (String × Value))
  | .text s => if s = "" then some [] else embeddedIn? (withoutFences s.toList)
  | _ => some []

end BlockDiagram.Json
