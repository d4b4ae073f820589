import BlockDiagram.Block.Literal
import BlockDiagram.Value.Quoted

/-!
# Attributes in configuration text

An attribute is one line with a literal, a nested block, or a dynamic block. A record whose keys
are all identifiers is a nested block, any other one an object. A record with a `for_each` is the
descriptor of a dynamic block; under the key `dynamic` a record or list may hold descriptors by
their block types.

* `Block.attributeText`: the lines of an attribute, indented by its level.
* `Block.dynamicLines`: the lines of a dynamic block.
-/

namespace BlockDiagram.Block

/-- A literal in a block. The whole numbers of a configuration were read from texts, and none is
read that is too long to be written down, so that here there is no limit. -/
def literalLine (value : Value) (level : Int) : Except Error String := literal 0 value level

/-- Whether the fields are those of a dynamic block's descriptor. -/
def isDescriptor (fields : List (String × Value)) : Bool := Table.has fields "for_each"

/-- The iterator of a dynamic block, if one is given. -/
def iteratorLines (given : Value) (level : Int) : Except Error (List String) :=
  if given.isTruthy then
    match given with
    | .text s => .ok [indent level ++ "iterator = " ++ Reference.wholeOr s s]
    | _ => .error (.defect .wrongType)
  else .ok []

/-- The labels of a dynamic block, if any are given. -/
def labelLines (given : Value) (level : Int) : List String :=
  match given with
  | .list (first :: rest) =>
    let labels := (first :: rest).map fun label => quote label.shown
    [indent level ++ "labels = [" ++ Text.join ", " labels ++ "]"]
  | _ => []

/-- The lines of a dynamic block before its content. -/
def headLines (blockType : String) (fields : List (String × Value)) (level : Int) :
    Except Error (List String) := do
  let given := Value.record fields
  let collection ← literalLine (given.field "for_each") (level + 1)
  let iterator ← iteratorLines (given.field "iterator") (level + 1)
  return [indent level ++ "dynamic " ++ quote blockType ++ " \x7b",
    indent (level + 1) ++ "for_each = " ++ collection]
    ++ iterator ++ labelLines (given.field "labels") (level + 1)

/-- The block type of a descriptor, or else another one. -/
def blockTypeOr (fields : List (String × Value)) (other : String) : String :=
  (((Value.record fields).field "type").orElse (.text other)).shown

/-- The lines of a dynamic block around those of its content. -/
def dynamicLines (blockType : String) (fields : List (String × Value))
    (content : Except Error (List String)) (level : Int) : Except Error (List String) := do
  let head ← headLines blockType fields level
  let content ← content
  return head ++ content ++ [indent level ++ "\x7d"]

mutual

/-- The lines of an attribute. -/
def attributeText (key : String) : Value → Int → Except Error String
  | .record fields, level => do
    if isDescriptor fields then
      let blockType := blockTypeOr fields (if key = "dynamic" then "block" else key)
      let lines ← dynamicLines blockType fields (contentLines fields (level + 1)) level
      return Text.join "\n" lines
    else if key = "dynamic" then
      return Text.join "\n" (← descriptorEntries fields level)
    else if fields.all fun field => isBareKey field.1 then
      if fields.isEmpty then return indent level ++ key ++ " \x7b\x7d"
      let body ← attributeLines fields (level + 1)
      return Text.join "\n" ([indent level ++ key ++ " \x7b"] ++ body ++ [indent level ++ "\x7d"])
    else
      return indent level ++ key ++ " = " ++ (← literalLine (.record fields) level)
  | .list items, level => do
    if key = "dynamic" then
      return Text.join "\n" (← descriptorItems items level)
    else
      return indent level ++ key ++ " = " ++ (← literalLine (.list items) level)
  | value, level => do
    return indent level ++ key ++ " = " ++ (← literalLine value level)

/-- The lines of several attributes, one text for each. -/
def attributeLines : List (String × Value) → Int → Except Error (List String)
  | [], _ => .ok []
  | (key, value) :: rest, level => do
    let first ← attributeText key value level
    let others ← attributeLines rest level
    return first :: others

/-- The lines of a dynamic block's content, if that is a record. -/
def contentLines : List (String × Value) → Int → Except Error (List String)
  | [], _ => .ok []
  | (key, .record fields) :: rest, level => do
    if key = "content" then
      if fields.isEmpty then return [indent level ++ "content \x7b\x7d"]
      let body ← attributeLines fields (level + 1)
      return [indent level ++ "content \x7b"] ++ body ++ [indent level ++ "\x7d"]
    else contentLines rest level
  | (key, _) :: rest, level => if key = "content" then .ok [] else contentLines rest level

/-- The lines of dynamic blocks whose descriptors stand under their block types. -/
def descriptorEntries : List (String × Value) → Int → Except Error (List String)
  | [], _ => .ok []
  | (blockType, .record fields) :: rest, level => do
    if isDescriptor fields then
      let first ← dynamicLines blockType fields (contentLines fields (level + 1)) level
      let others ← descriptorEntries rest level
      return first ++ others
    else .error (.unwritable (.collection blockType))
  | (blockType, _) :: _, _ => .error (.unwritable (.collection blockType))

/-- The lines of dynamic blocks whose descriptors stand in a list. -/
def descriptorItems : List Value → Int → Except Error (List String)
  | [], _ => .ok []
  | .record fields :: rest, level => do
    let first ←
      if isDescriptor fields then
        dynamicLines (blockTypeOr fields "block") fields (contentLines fields (level + 1)) level
      else descriptorEntries fields level
    let others ← descriptorItems rest level
    return first ++ others
  | _ :: _, _ => .error (.unwritable .descriptor)

end

end BlockDiagram.Block
