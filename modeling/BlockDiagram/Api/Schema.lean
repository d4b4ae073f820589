import BlockDiagram.Binary64.Decimal
import BlockDiagram.Text.Blank
import BlockDiagram.Text.Case
import BlockDiagram.Text.Digits
import BlockDiagram.Value

/-!
# Shapes of request bodies

A schema lists the fields of a body. A field is found under its wire key or, where that is absent,
under its plain key; whatever else a body holds is a fault. A reader turns the value of a field
into what it stands for, or says where in the value the faults are.

* `Schema.read`: the fields that a body gives, by their plain keys, or the places of all faults.
-/

namespace BlockDiagram.Api

open Text (numeral)

/-- A place in a body: the keys that lead to it. -/
abbrev Place := List String

/-- What a value stands for, or the places of its faults. -/
abbrev Reader := Value → Except (List Place) Value

def fault : Except (List Place) Value := .error [[]]

/-! ## Readers -/

def text : Reader
  | .text s => .ok (.text s)
  | _ => fault

def mapping : Reader
  | .record fields => .ok (.record fields)
  | _ => fault

/-- A mapping to texts. Every entry that is no text is a fault of its own. -/
def texts : Reader
  | .record fields =>
    match fields.filter fun field => field.2.text?.isNone with
    | [] => .ok (.record fields)
    | wrong => .error (wrong.map fun field => [field.1])
  | _ => fault

/-- The truth value that a word stands for. -/
def flagOfWord? (s : String) : Option Bool :=
  let word := Text.lowered s
  if ["0", "off", "f", "false", "n", "no"].contains word then some false
  else if ["1", "on", "t", "true", "y", "yes"].contains word then some true
  else none

/-- The truth value that a value stands for: a word, or a one or zero. -/
def flag? (value : Value) : Option Bool :=
  match value with
  | .bool b => some b
  | .text s => flagOfWord? s
  | value =>
    match value.number? with
    | some x =>
      if x.eq (.whole 0) then some false else if x.eq (.whole 1) then some true else none
    | none => none

def flag : Reader := fun value =>
  match flag? value with
  | some b => .ok (.bool b)
  | none => fault

/-! ### Numbers in texts -/

/-- The digits at the start of a text and what follows them. -/
def spanDigits (cs : List Char) : List Char × List Char :=
  (cs.takeWhile Char.isDigit, cs.dropWhile Char.isDigit)

/-- The sign at the start of a text and what follows it. -/
def spanSign (cs : List Char) : Bool × List Char :=
  match cs with
  | '-' :: rest => (true, rest)
  | '+' :: rest => (false, rest)
  | rest => (false, rest)

/-- The exponent that a whole text is; an empty one is zero. -/
def exponentOf? (cs : List Char) : Option Int :=
  match cs with
  | [] => some 0
  | e :: rest =>
    if e = 'e' ∨ e = 'E' then
      let (negative, digits) := spanSign rest
      if digits.isEmpty || !digits.all Char.isDigit then none
      else
        let size : Int := numeral digits
        some (if negative then -size else size)
    else none

/-- The number that an unsigned text is: digits with a point before, between or behind them, and an
exponent. -/
def unsigned? (negative : Bool) (cs : List Char) : Option Binary64 := do
  let (whole, rest) := spanDigits cs
  let (fraction, rest) := match rest with
    | '.' :: rest => spanDigits rest
    | rest => ([], rest)
  if whole.isEmpty && fraction.isEmpty then none
  else
    let exponent ← exponentOf? rest
    return Binary64.ofDecimal negative (numeral (whole ++ fraction)) (exponent - fraction.length)

def plainReal? (cs : List Char) : Option Binary64 :=
  let (negative, rest) := spanSign cs
  let word := Text.lowered (String.ofList rest)
  if word = "inf" ∨ word = "infinity" then some (.infinity negative)
  else if word = "nan" then some .nan
  else unsigned? negative rest

/-- Whether a character is white space around a number. -/
def isPadding (c : Char) : Bool :=
  Text.isBlank c && !(decide (28 ≤ c.toNat) && decide (c.toNat ≤ 31))

/-- A text without the white space around it. -/
def unpadded (cs : List Char) : List Char :=
  ((cs.dropWhile isPadding).reverse.dropWhile isPadding).reverse

/-- Whether two underscores of a text touch. -/
def hasDoubleUnderscore : List Char → Bool
  | '_' :: '_' :: _ => true
  | _ :: rest => hasDoubleUnderscore rest
  | [] => false

/-- The number that a text is. White space may surround it, or else single underscores may stand
between its characters. -/
def realOfText? (s : String) : Option Binary64 :=
  let cs := s.toList
  match plainReal? (unpadded cs) with
  | some x => some x
  | none =>
    if cs.head? = some '_' ∨ cs.getLast? = some '_' ∨ hasDoubleUnderscore cs = true then none
    else plainReal? (cs.filter (· != '_'))

def real? (value : Value) : Option Binary64 :=
  match value with
  | .text s => realOfText? s
  | value =>
    match value.number? with
    | some (.whole n) => Binary64.ofInt? n
    | some (.real x) => some x
    | none => none

/-- A number; a whole one becomes a floating-point one. -/
def real : Reader := fun value =>
  match real? value with
  | some x => .ok (.float x)
  | none => fault

def optional (reader : Reader) : Reader
  | .null => .ok .null
  | value => reader value

/-! ## Schemas -/

/-- A field of a body. -/
structure Field where
  key : String
  wire : String
  reader : Reader
  isRequired : Bool

/-- A field that may be absent or null. -/
def Field.maybe (key wire : String) (reader : Reader) : Field := ⟨key, wire, optional reader, false⟩

def Field.must (key wire : String) (reader : Reader) : Field := ⟨key, wire, reader, true⟩

abbrev Schema := List Field

namespace Schema

/-- The entry of a field in a body: the key that it is found under, and its value. -/
def found? (field : Field) (body : Table Value) : Option (String × Value) :=
  match body.get? field.wire with
  | some value => some (field.wire, value)
  | none => (body.get? field.key).map fun value => (field.key, value)

/-- The places of a field's faults. -/
def faults (field : Field) (body : Table Value) : List Place :=
  match found? field body with
  | some (key, value) =>
    match field.reader value with
    | .ok _ => []
    | .error places => places.map fun place => key :: place
  | none => if field.isRequired then [[field.wire]] else []

/-- What a field of a body stands for, if the body gives it. -/
def given? (field : Field) (body : Table Value) : Option (String × Value) :=
  match found? field body with
  | some (_, value) =>
    match field.reader value with
    | .ok result => some (field.key, result)
    | .error _ => none
  | none => none

/-- The keys of a body that belong to no field. -/
def strangers (schema : Schema) (body : Table Value) : List Place :=
  let used := schema.filterMap fun field => (found? field body).map Prod.fst
  (body.keys.filter fun key => !used.contains key).map fun key => [key]

/-- The fields that a body gives, or the places of all faults. -/
def read (schema : Schema) (value : Value) : Except (List Place) (Table Value) :=
  match value with
  | .record body =>
    match schema.flatMap (fun field => faults field body) ++ strangers schema body with
    | [] => .ok (schema.filterMap fun field => given? field body)
    | places => .error places
  | _ => .error [[]]

/-- The mapping of a schema as a field of another one. -/
def reader (schema : Schema) : Reader := fun value =>
  match read schema value with
  | .ok fields => .ok (.record fields)
  | .error places => .error places

end Schema

/-! ## Request bodies -/

def layoutSchema : Schema := [
  .maybe "direction" "rankdir" text, .maybe "node_spacing" "nodesep" real,
  .maybe "rank_spacing" "ranksep" real, .maybe "margin_x" "marginx" real,
  .maybe "margin_y" "marginy" real]

def diagramSchema : Schema := [
  .must "parsed_data" "parsedData" mapping,
  .maybe "layout_options" "layoutOptions" layoutSchema.reader,
  ⟨"enhance", "enhance", flag, false⟩]

/-- A node, or changes to one. -/
def nodeSchema : Schema := [
  .maybe "id" "id" text, .maybe "kind" "kind" text, .maybe "type" "type" text,
  .maybe "resource_type" "resourceType" text, .maybe "name" "name" text,
  .maybe "label" "label" text, .maybe "config" "config" mapping, .maybe "x" "x" real,
  .maybe "y" "y" real, .maybe "width" "width" real, .maybe "height" "height" real,
  .maybe "icon" "icon" text]

def connectionSchema : Schema := [
  .must "source_id" "sourceId" text, .must "target_id" "targetId" text,
  .maybe "type" "type" text, .maybe "label" "label" text, .maybe "verb" "verb" text]

def connectionPatchSchema : Schema := [
  .maybe "id" "id" text, .maybe "source_id" "sourceId" text, .maybe "target_id" "targetId" text,
  .maybe "type" "type" text, .maybe "label" "label" text, .maybe "verb" "verb" text]

/-- A kept diagram, or a snapshot, to write code for. -/
def codeSchema : Schema := [
  .maybe "diagram_id" "diagramId" text, .maybe "diagram_data" "diagramData" mapping,
  .maybe "include_terraform_block" "includeTerraformBlock" flag]

/-- A diagram to write code for, and files to compare with. -/
def previewSchema : Schema := codeSchema ++ [.maybe "original_code" "originalCode" texts]

/-- Files to export, and where to. -/
def exportSchema : Schema := [
  .must "generated_code" "generatedCode" texts, .must "output_directory" "outputDirectory" text]

end BlockDiagram.Api
