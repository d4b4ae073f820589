import BlockDiagram.Text.Blank
import BlockDiagram.Text.Split
import BlockDiagram.Text.Word
import BlockDiagram.Value

/-!
# Checking configuration text

A check of the outer structure: the text is not blank, its braces outside literals and comments
are balanced, every literal ends, and some line begins with the keyword of a block.

* `CodeCheck.braceFault?`: the first fault of braces and literals.
* `CodeCheck.hasBlock`: whether a line begins with a keyword.
* `CodeCheck.problems`: all that is wrong with a text.
-/

namespace BlockDiagram.CodeCheck

/-- What can be wrong with a configuration text. -/
inductive Problem where
  | empty
  | unbalanced
  | unterminated
  | noBlock
deriving DecidableEq, Repr

def Problem.message : Problem → String
  | empty => "Code is empty"
  | unbalanced => "Code has unbalanced braces"
  | unterminated => "Code has an unterminated string literal"
  | noBlock => "Code does not contain any configuration block"

/-- Where a scan of a text stands: outside everything, in a literal, behind a backslash in one, or
in a comment. -/
inductive Place where
  | outside
  | literal
  | escaped
  | comment
deriving DecidableEq, Repr

/-- The first fault of braces and literals from a place in a text with some braces open. -/
def braceFault? : Place → Nat → List Char → Option Problem
  | .outside, depth, [] => if depth = 0 then none else some .unbalanced
  | .comment, depth, [] => if depth = 0 then none else some .unbalanced
  | .literal, _, [] => some .unterminated
  | .escaped, _, [] => some .unterminated
  | .comment, depth, c :: rest =>
    braceFault? (if c = '\n' then .outside else .comment) depth rest
  | .escaped, depth, _ :: rest => braceFault? .literal depth rest
  | .literal, depth, c :: rest =>
    braceFault? (if c = '\\' then .escaped else if c = '"' then .outside else .literal) depth rest
  | .outside, depth, c :: rest =>
    if c = '"' then braceFault? .literal depth rest
    else if c = '#' then braceFault? .comment depth rest
    else if c = '\x7b' then braceFault? .outside (depth + 1) rest
    else if c = '\x7d' then
      if depth = 0 then some .unbalanced else braceFault? .outside (depth - 1) rest
    else braceFault? .outside depth rest

def keywords : List String :=
  ["resource", "data", "module", "variable", "output", "terraform", "provider", "locals"]

/-- The word that a line begins with; empty when it begins with something else. -/
def firstWord (line : List Char) : String :=
  String.ofList ((Text.stripLeft line).takeWhile Text.isWord)

/-- Whether some line begins with the keyword of a block. -/
def hasBlock (code : List Char) : Bool :=
  (Text.segments '\n' code).any fun line => keywords.contains (firstWord line)

/-- All that is wrong with a text; something that is no text counts as empty. -/
def problems (code : Value) : List Problem :=
  match code with
  | .text s =>
    if Text.isBlankText s then [.empty]
    else
      (braceFault? .outside 0 s.toList).toList
        ++ (if hasBlock s.toList then [] else [.noBlock])
  | _ => [.empty]

def report (code : Value) : Value :=
  let found := problems code
  .record [("valid", .bool found.isEmpty), ("errors", .list (found.map fun p => .text p.message))]

end BlockDiagram.CodeCheck
