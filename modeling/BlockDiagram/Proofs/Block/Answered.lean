import BlockDiagram.Block.Files
import BlockDiagram.Drawing
import BlockDiagram.Outcome

/-!
# What the writing of blocks answers

A node has a block or is refused one, whatever its attributes hold, with two exceptions. The
iterator of a dynamic block, and the validations of a variable, are taken as they come: an iterator
that is given and is no text, and validations that are a number or a truth value, have no meaning
where they are used.

* `WritesUnless`, `WritesUnless.bind`: steps one after the other.
* `writesUnless_attributeText`: attributes, by the descriptors of their dynamic blocks.
* `Diagram.generated_unless_mistyped`: the files of a diagram, and the block of one node.
* `Diagram.exists_not_generated`: a diagram of either sort that has no files.
-/

namespace BlockDiagram

open Outcome

variable {α β : Type}

/-- A step that gives a result or refuses a node. If the node is `odd` it gives none, but what is
wrong may be found where it is used and not refused. -/
structure WritesUnless (odd : Bool) (outcome : Except Error α) : Prop where
  failure : ∀ e, outcome = .error e →
    (∃ cause, e = .unwritable cause) ∨ odd = true ∧ e = .defect .wrongType
  error_of_odd : odd = true → ∃ e, outcome = .error e

theorem writesUnless_ok (a : α) : WritesUnless false (.ok a : Except Error α) where
  failure _ h := by cases h
  error_of_odd h := by cases h

theorem writesUnless_refused (odd : Bool) (cause : Unwritable) :
    WritesUnless odd (.error (.unwritable cause) : Except Error α) where
  failure e h := by
    cases h
    exact .inl ⟨cause, rfl⟩
  error_of_odd _ := ⟨_, rfl⟩

theorem writesUnless_wrongType :
    WritesUnless true (.error (.defect .wrongType) : Except Error α) where
  failure e h := by
    cases h
    exact .inr ⟨rfl, rfl⟩
  error_of_odd _ := ⟨_, rfl⟩

theorem WritesUnless.bind {p q : Bool} {x : Except Error α} {f : α → Except Error β}
    (hx : WritesUnless p x) (hf : ∀ a, x = .ok a → WritesUnless q (f a)) :
    WritesUnless (p || q) (x >>= f) := by
  cases x with
  | error e =>
    refine ⟨fun e' h => ?_, fun _ => ⟨e, rfl⟩⟩
    cases h
    rcases hx.failure e rfl with hcause | ⟨hp, he⟩
    · exact .inl hcause
    · exact .inr ⟨by rw [hp, Bool.true_or], he⟩
  | ok a =>
    have hnot : p = false := by
      cases p with
      | false => rfl
      | true =>
        obtain ⟨e, he⟩ := hx.error_of_odd rfl
        cases he
    rw [hnot, Bool.false_or]
    exact hf a rfl

/-- After a step in which nothing is odd. -/
theorem WritesUnless.andThen {p : Bool} {x : Except Error α} {f : α → Except Error β}
    (hx : WritesUnless false x) (hf : ∀ a, WritesUnless p (f a)) : WritesUnless p (x >>= f) := by
  have h := hx.bind fun a _ => hf a
  rwa [Bool.false_or] at h

/-- The result of a step only passes through the next one. -/
theorem WritesUnless.map {p : Bool} {x : Except Error α} (hx : WritesUnless p x) (f : α → β) :
    WritesUnless p (x >>= fun a => .ok (f a)) := by
  have h := hx.bind (f := fun a => .ok (f a)) fun a _ => writesUnless_ok (f a)
  rwa [Bool.or_false] at h

theorem writesUnless_mapM {odd : α → Bool} {f : α → Except Error β} {items : List α}
    (h : ∀ a ∈ items, WritesUnless (odd a) (f a)) :
    WritesUnless (items.any odd) (items.mapM f) := by
  induction items with
  | nil => exact writesUnless_ok []
  | cons a rest ih =>
    rw [List.mapM_cons, List.any_cons]
    refine (h a List.mem_cons_self).bind fun b _ => ?_
    exact (ih fun a ha => h a (List.mem_cons_of_mem _ ha)).map (b :: ·)

namespace Block

/-! ## Descriptors -/

mutual

/-- The descriptors of the dynamic blocks that an attribute is written as, at every depth. -/
def descriptors (key : String) : Value → List (List (String × Value))
  | .record fields =>
    if isDescriptor fields then fields :: contentDescriptors fields
    else if key = "dynamic" then entryDescriptors fields
    else if fields.all fun field => isBareKey field.1 then fieldDescriptors fields
    else []
  | .list items => if key = "dynamic" then itemDescriptors items else []
  | _ => []

/-- The same of several attributes. -/
def fieldDescriptors : List (String × Value) → List (List (String × Value))
  | [] => []
  | (key, value) :: rest => descriptors key value ++ fieldDescriptors rest

/-- The same of a dynamic block's content. -/
def contentDescriptors : List (String × Value) → List (List (String × Value))
  | [] => []
  | (key, .record fields) :: rest =>
    if key = "content" then fieldDescriptors fields else contentDescriptors rest
  | (key, _) :: rest => if key = "content" then [] else contentDescriptors rest

/-- Descriptors under their block types, and the same of their contents. -/
def entryDescriptors : List (String × Value) → List (List (String × Value))
  | [] => []
  | (_, .record fields) :: rest => fields :: contentDescriptors fields ++ entryDescriptors rest
  | _ :: rest => entryDescriptors rest

/-- Descriptors in a list, and the same of their contents. -/
def itemDescriptors : List Value → List (List (String × Value))
  | [] => []
  | .record fields :: rest =>
    (if isDescriptor fields then fields :: contentDescriptors fields else entryDescriptors fields)
      ++ itemDescriptors rest
  | _ :: rest => itemDescriptors rest

end

/-- Whether the iterator of a descriptor is given and is no text. -/
def misnamesIterator (fields : List (String × Value)) : Bool :=
  let given := (Value.record fields).field "iterator"
  given.isTruthy && given.text?.isNone

/-! ## Literals -/

mutual

theorem writesUnless_literal : ∀ (value : Value) (level : Int),
    WritesUnless false (literal 0 value level)
  | .null, _ => writesUnless_ok _
  | .bool _, _ => writesUnless_ok _
  | .int _, _ => writesUnless_ok _
  | .float x, _ => by
    rw [literal]
    split
    · exact writesUnless_ok _
    · exact writesUnless_refused _ _
  | .text _, _ => writesUnless_ok _
  | .list [], _ => writesUnless_ok _
  | .list (first :: rest), level => by
    rw [literal]
    exact (writesUnless_literalItems (first :: rest) (level + 1)).map _
  | .record [], _ => writesUnless_ok _
  | .record (first :: rest), level => by
    rw [literal]
    exact (writesUnless_literalFields (first :: rest) (level + 1)).map _

theorem writesUnless_literalItems : ∀ (items : List Value) (level : Int),
    WritesUnless false (literalItems 0 items level)
  | [], _ => writesUnless_ok _
  | item :: rest, level => by
    rw [literalItems]
    refine (writesUnless_literal item level).andThen fun _ => ?_
    exact (writesUnless_literalItems rest level).map _

theorem writesUnless_literalFields : ∀ (fields : List (String × Value)) (level : Int),
    WritesUnless false (literalFields 0 fields level)
  | [], _ => writesUnless_ok _
  | (_, value) :: rest, level => by
    rw [literalFields]
    refine (writesUnless_literal value level).andThen fun _ => ?_
    exact (writesUnless_literalFields rest level).map _

end

/-! ## Dynamic blocks -/

theorem writesUnless_iteratorLines (given : Value) (level : Int) :
    WritesUnless (given.isTruthy && given.text?.isNone) (iteratorLines given level) := by
  unfold iteratorLines
  split
  · next htruthy =>
    rw [htruthy, Bool.true_and]
    cases given with
    | text s => exact writesUnless_ok _
    | _ => exact writesUnless_wrongType
  · next htruthy =>
    rw [Bool.eq_false_iff.2 htruthy, Bool.false_and]
    exact writesUnless_ok _

theorem writesUnless_dynamicLines (blockType : String) (fields : List (String × Value))
    {content : Except Error (List String)} {odd : Bool} (hcontent : WritesUnless odd content)
    (level : Int) :
    WritesUnless (misnamesIterator fields || odd)
      (dynamicLines blockType fields content level) := by
  have hhead : WritesUnless (misnamesIterator fields) (headLines blockType fields level) := by
    have hiterator :=
      writesUnless_iteratorLines ((Value.record fields).field "iterator") (level + 1)
    exact (writesUnless_literal _ (level + 1)).bind fun _ _ => hiterator.map _
  exact hhead.bind fun _ _ => hcontent.map _

/-! ## Attributes -/

mutual

theorem writesUnless_attributeText (key : String) (level : Int) : ∀ value : Value,
    WritesUnless ((descriptors key value).any misnamesIterator) (attributeText key value level)
  | .record fields => by
    rw [descriptors, attributeText]
    split
    · rw [List.any_cons]
      exact (writesUnless_dynamicLines _ fields (writesUnless_contentLines (level + 1) fields)
        level).map _
    split
    · exact (writesUnless_descriptorEntries level fields).map _
    split
    · split
      · next hempty =>
        rw [List.isEmpty_iff.1 hempty]
        exact writesUnless_ok _
      · exact (writesUnless_attributeLines (level + 1) fields).map _
    · exact (writesUnless_literal _ level).map _
  | .list items => by
    rw [descriptors, attributeText]
    split
    · exact (writesUnless_descriptorItems level items).map _
    · exact (writesUnless_literal _ level).map _
  | .null => (writesUnless_literal _ level).map _
  | .bool _ => (writesUnless_literal _ level).map _
  | .int _ => (writesUnless_literal _ level).map _
  | .float _ => (writesUnless_literal _ level).map _
  | .text _ => (writesUnless_literal _ level).map _

theorem writesUnless_attributeLines (level : Int) : ∀ fields : List (String × Value),
    WritesUnless ((fieldDescriptors fields).any misnamesIterator) (attributeLines fields level)
  | [] => writesUnless_ok []
  | (key, value) :: rest => by
    rw [fieldDescriptors, attributeLines, List.any_append]
    exact (writesUnless_attributeText key level value).bind fun _ _ =>
      (writesUnless_attributeLines level rest).map _

theorem writesUnless_contentLines (level : Int) : ∀ fields : List (String × Value),
    WritesUnless ((contentDescriptors fields).any misnamesIterator) (contentLines fields level)
  | [] => writesUnless_ok []
  | (key, value) :: rest => by
    cases value with
    | record fields =>
      rw [contentDescriptors, contentLines]
      split
      · split
        · next hempty =>
          rw [List.isEmpty_iff.1 hempty]
          exact writesUnless_ok _
        · exact (writesUnless_attributeLines (level + 1) fields).map _
      · exact writesUnless_contentLines level rest
    | _ =>
      simp only [contentDescriptors, contentLines]
      split
      · exact writesUnless_ok []
      · exact writesUnless_contentLines level rest

theorem writesUnless_descriptorEntries (level : Int) : ∀ fields : List (String × Value),
    WritesUnless ((entryDescriptors fields).any misnamesIterator) (descriptorEntries fields level)
  | [] => writesUnless_ok []
  | (blockType, value) :: rest => by
    cases value with
    | record fields =>
      rw [entryDescriptors, descriptorEntries, List.any_append, List.any_cons]
      split
      · have hfirst := writesUnless_dynamicLines blockType fields
          (writesUnless_contentLines (level + 1) fields) level
        exact hfirst.bind fun _ _ => (writesUnless_descriptorEntries level rest).map _
      · exact writesUnless_refused _ _
    | _ => exact writesUnless_refused _ _

theorem writesUnless_descriptorItems (level : Int) : ∀ items : List Value,
    WritesUnless ((itemDescriptors items).any misnamesIterator) (descriptorItems items level)
  | [] => writesUnless_ok []
  | item :: rest => by
    cases item with
    | record fields =>
      rw [itemDescriptors, descriptorItems, List.any_append]
      have hrest := writesUnless_descriptorItems level rest
      split
      · rw [List.any_cons]
        have hfirst := writesUnless_dynamicLines (blockTypeOr fields "block") fields
          (writesUnless_contentLines (level + 1) fields) level
        exact hfirst.bind fun _ _ => hrest.map _
      · exact (writesUnless_descriptorEntries level fields).bind fun _ _ => hrest.map _
    | _ => exact writesUnless_refused _ _

end

/-! ## Blocks -/

/-- The descriptors in the attributes of one validation, or of several. -/
def validationDescriptors : Value → List (List (String × Value))
  | .record fields => fieldDescriptors fields
  | .list values => values.flatMap fun value =>
    match value with
    | .record fields => fieldDescriptors fields
    | _ => []
  | _ => []

/-- Whether validations are given and are a number or a truth value. -/
def mistypesValidation (given : Value) : Bool := given.isTruthy && given.number?.isSome

/-- Whether attributes of a block of some kind are used as what they are not. -/
def mistypes (kind : Kind) (fields : List (String × Value)) : Bool :=
  let body := fun elsewhere =>
    fieldDescriptors (fields.filter fun field => isWritten elsewhere field.1)
  let validation := (Value.record fields).field "validation"
  match kind with
  | .resource | .dataSource => (body []).any misnamesIterator
  | .moduleCall => (body ["source"]).any misnamesIterator
  | .inputVariable =>
    mistypesValidation validation || (validationDescriptors validation).any misnamesIterator
  | .outputValue => false

end Block

/-- Whether a node has attributes that are used as what they are not. -/
def Node.isMistyped (node : Node) : Bool :=
  match node.config.orElse (.record []) with
  | .record fields => Block.mistypes node.kind fields
  | _ => false

namespace Block

variable (node : Node)

theorem writesUnless_dependencyLines (fields : List (String × Value)) :
    WritesUnless false (dependencyLines node fields) := by
  have hline : ∀ entry, WritesUnless false (dependencyLine node entry) := by
    intro entry
    cases entry with
    | text s =>
      rw [dependencyLine]
      split
      · exact writesUnless_refused _ _
      · exact writesUnless_ok _
    | _ => exact writesUnless_refused _ _
  rw [dependencyLines]
  generalize (Value.record fields).field "depends_on" = given
  split
  · cases given with
    | list entries =>
      have hlines : WritesUnless (entries.any fun _ => false)
          (entries.mapM (dependencyLine node)) := writesUnless_mapM fun entry _ => hline entry
      rw [List.any_eq_false.2 fun _ _ => Bool.false_ne_true] at hlines
      exact hlines.map _
    | _ => exact writesUnless_refused _ _
  · exact writesUnless_ok _

theorem writesUnless_nameOf : WritesUnless false (nameOf node) := by
  unfold nameOf
  split
  · split
    · exact writesUnless_refused _ _
    · exact writesUnless_ok _
  · exact writesUnless_refused _ _

theorem writesUnless_typeAndNameOf : WritesUnless false (typeAndNameOf node) := by
  unfold typeAndNameOf
  dsimp only
  split
  · exact writesUnless_refused _ _
  · split
    · exact writesUnless_refused _ _
    · exact writesUnless_ok _

theorem writesUnless_typeLines (config : Value) : WritesUnless false (typeLines node config) := by
  rw [typeLines]
  generalize config.field "type" = given
  split
  · cases given with
    | text expression => exact writesUnless_ok _
    | _ => exact writesUnless_refused _ _
  · exact writesUnless_ok _

theorem writesUnless_defaultLines (fields : List (String × Value)) :
    WritesUnless false (defaultLines fields) := by
  unfold defaultLines
  split
  · exact (writesUnless_literal _ 1).map _
  · exact writesUnless_ok _

theorem writesUnless_validationLines (value : Value) :
    WritesUnless ((validationDescriptors (.list [value])).any misnamesIterator)
      (validationLines node value) := by
  cases value with
  | record fields =>
    rw [validationDescriptors, List.flatMap_singleton]
    exact (writesUnless_attributeLines 2 fields).map _
  | _ => exact writesUnless_refused _ _

theorem writesUnless_allValidationLines (config : Value) :
    WritesUnless (mistypesValidation (config.field "validation")
      || (validationDescriptors (config.field "validation")).any misnamesIterator)
      (allValidationLines node config) := by
  rw [allValidationLines, mistypesValidation]
  generalize config.field "validation" = given
  split
  · next htruthy =>
    rw [htruthy, Bool.true_and]
    cases given with
    | record fields =>
      have h := writesUnless_validationLines node (.record fields)
      rw [validationDescriptors, List.flatMap_singleton] at h
      exact h
    | list values =>
      have h := writesUnless_mapM fun value (_ : value ∈ values) =>
        writesUnless_validationLines node value
      have hany : (values.any fun value =>
          (validationDescriptors (.list [value])).any misnamesIterator)
          = (validationDescriptors (.list values)).any misnamesIterator := by
        simp only [validationDescriptors, List.flatMap_singleton, List.any_flatMap]
      rw [hany] at h
      exact h.map _
    | text s => exact writesUnless_refused _ _
    | null => cases htruthy
    | _ => exact writesUnless_wrongType
  · next htruthy =>
    have hempty : (validationDescriptors given).any misnamesIterator = false := by
      cases given with
      | record fields => rw [show fields = [] by simpa [Value.isTruthy] using htruthy]; rfl
      | list values => rw [show values = [] by simpa [Value.isTruthy] using htruthy]; rfl
      | _ => rfl
    rw [Bool.eq_false_iff.2 htruthy, hempty]
    exact writesUnless_ok _

theorem writesUnless_bodyLines (fields : List (String × Value)) (elsewhere : List String) :
    WritesUnless ((fieldDescriptors (fields.filter fun field => isWritten elsewhere field.1)).any
      misnamesIterator) (bodyLines fields elsewhere) :=
  writesUnless_attributeLines 1 _

/-- Attributes that are no mapping are refused, whatever would follow. -/
theorem writesUnless_attributesOf_bind {f : List (String × Value) → Except Error β}
    (h : ∀ fields, WritesUnless (mistypes node.kind fields) (f fields)) :
    WritesUnless node.isMistyped (attributesOf node >>= f) := by
  unfold attributesOf Node.isMistyped
  cases node.config.orElse (.record []) with
  | record fields => exact h fields
  | _ => exact writesUnless_refused _ _

variable {node}

theorem writesUnless_typedBlock (hkind : node.kind.isTyped = true) :
    WritesUnless node.isMistyped (typedBlock node) := by
  refine (writesUnless_typeAndNameOf node).andThen fun labels => ?_
  refine writesUnless_attributesOf_bind node fun fields => ?_
  have hodd : mistypes node.kind fields
      = (fieldDescriptors (fields.filter fun field => isWritten [] field.1)).any
        misnamesIterator := by
    cases hkey : node.kind with
    | resource => rfl
    | dataSource => rfl
    | moduleCall => rw [hkey] at hkind; cases hkind
    | inputVariable => rw [hkey] at hkind; cases hkind
    | outputValue => rw [hkey] at hkind; cases hkind
  rw [hodd, ← Bool.or_false (List.any _ _)]
  exact (writesUnless_bodyLines fields []).bind fun _ _ =>
    (writesUnless_dependencyLines node fields).map _

theorem writesUnless_moduleBlock (hkind : node.kind = .moduleCall) :
    WritesUnless node.isMistyped (moduleBlock node) := by
  refine (writesUnless_nameOf node).andThen fun name => ?_
  refine writesUnless_attributesOf_bind node fun fields => ?_
  rw [hkind]
  refine (writesUnless_literal _ 1).andThen fun _ => ?_
  rw [mistypes, ← Bool.or_false (List.any _ _)]
  exact (writesUnless_bodyLines fields ["source"]).bind fun _ _ =>
    (writesUnless_dependencyLines node fields).map _

theorem writesUnless_variableBlock (hkind : node.kind = .inputVariable) :
    WritesUnless node.isMistyped (variableBlock node) := by
  refine (writesUnless_nameOf node).andThen fun name => ?_
  refine writesUnless_attributesOf_bind node fun fields => ?_
  rw [hkind]
  refine (writesUnless_typeLines node _).andThen fun _ => ?_
  refine (writesUnless_defaultLines fields).andThen fun _ => ?_
  exact (writesUnless_allValidationLines node _).map _

theorem writesUnless_outputBlock (hkind : node.kind = .outputValue) :
    WritesUnless node.isMistyped (outputBlock node) := by
  refine (writesUnless_nameOf node).andThen fun name => ?_
  refine writesUnless_attributesOf_bind node fun fields => ?_
  rw [hkind]
  refine (writesUnless_literal _ 1).andThen fun _ => ?_
  exact (writesUnless_dependencyLines node fields).map _

end Block

open Block in
theorem Node.writesUnless_blockText (node : Node) :
    WritesUnless node.isMistyped node.blockText := by
  unfold Node.blockText
  split
  · next hkind => exact writesUnless_typedBlock (by rw [hkind]; rfl)
  · next hkind => exact writesUnless_typedBlock (by rw [hkind]; rfl)
  · next hkind => exact writesUnless_moduleBlock hkind
  · next hkind => exact writesUnless_variableBlock hkind
  · next hkind => exact writesUnless_outputBlock hkind

/-! ## Files -/

namespace Diagram

theorem writesUnless_file (d : Diagram) (extension : String) (withHeader : Bool) (stem : String)
    (kinds : List Kind) : WritesUnless ((kinds.flatMap d.nodesOf).any Node.isMistyped)
      (Files.file d extension withHeader stem kinds) := by
  have hblocks : WritesUnless _ (Files.blocks d kinds) :=
    writesUnless_mapM fun node _ => node.writesUnless_blockText
  exact hblocks.map _

/-- Every kind has a file. -/
theorem any_plan (d : Diagram) (p : Node → Bool) :
    (Files.plan.any fun file => (file.2.flatMap d.nodesOf).any p) = d.nodes.values.any p := by
  have hplan : ∀ kind, ∃ file ∈ Files.plan, kind ∈ file.2 := by
    intro kind
    cases kind <;> decide
  rw [Bool.eq_iff_iff]
  simp only [List.any_eq_true, List.mem_flatMap]
  constructor
  · rintro ⟨file, -, node, ⟨kind, -, hnode⟩, hp⟩
    exact ⟨node, (List.mem_filter.1 hnode).1, hp⟩
  · rintro ⟨node, hnode, hp⟩
    obtain ⟨file, hfile, hkind⟩ := hplan node.kind
    have hof : node ∈ d.nodesOf node.kind := List.mem_filter.2 ⟨hnode, decide_eq_true rfl⟩
    exact ⟨file, hfile, node, ⟨node.kind, hkind, hof⟩, hp⟩

theorem writesUnless_files (d : Diagram) (extension : String) (withHeader : Bool) :
    WritesUnless (d.nodes.values.any Node.isMistyped) (d.files extension withHeader) := by
  have hfiles := writesUnless_mapM fun file (_ : file ∈ Files.plan) =>
    d.writesUnless_file extension withHeader file.1 file.2
  rw [any_plan d Node.isMistyped] at hfiles
  exact hfiles.map _

theorem blockAt_of_get? {d : Diagram} {id : String} {node : Node} (kinds : List Kind)
    (hnode : d.nodes.get? id = some node) :
    d.blockAt (.text id) kinds = if kinds = [] ∨ node.kind ∈ kinds then node.blockText
      else .error (.missing (.block kinds.head? (.text id))) := by
  have hchosen : (kinds.isEmpty || kinds.contains node.kind) = true
      ↔ kinds = [] ∨ node.kind ∈ kinds := by
    rw [Bool.or_eq_true, List.isEmpty_iff, List.contains_iff_mem]
  simp only [blockAt, Value.text?, Option.bind_some, hnode, hchosen]

/-- A diagram has files, and each of its nodes a block, or is refused, whatever the attributes hold;
unless a node has attributes that are used as what they are not. Then there are no files and no
block of the node, and in place of a refusal there may be a value of the wrong type. A node that is
asked for among kinds that are not its own is not found. -/
theorem generated_unless_mistyped (d : Diagram) :
    (∀ extension withHeader,
      WritesUnless (d.nodes.values.any Node.isMistyped) (d.files extension withHeader)) ∧
    ∀ id node kinds, d.nodes.get? id = some node →
      (kinds = [] ∨ node.kind ∈ kinds →
        WritesUnless node.isMistyped (d.blockAt (.text id) kinds)) ∧
      (¬ (kinds = [] ∨ node.kind ∈ kinds) →
        d.blockAt (.text id) kinds = .error (.missing (.block kinds.head? (.text id)))) := by
  refine ⟨d.writesUnless_files, fun id node kinds hnode => ?_⟩
  rw [blockAt_of_get? kinds hnode]
  refine ⟨fun hkinds => ?_, fun hkinds => if_neg hkinds⟩
  rw [if_pos hkinds]
  exact node.writesUnless_blockText

/-- A module with a dynamic block in the content of another one, whose iterator is a number. -/
def loopModule : Node :=
  { id := "module.m", kind := .moduleCall, name := some "m", resourceType := none, label := .null
    config := .record [("rule", .record [("for_each", .list []), ("content",
      .record [("port", .record [("for_each", .list []), ("iterator", .int 5)])])])]
    x := .int 0, y := .int 0, width := .int 200, height := .int 100, icon := .null }

theorem generated_unless_loopModule :
    let d : Diagram := { empty with nodes := [("module.m", loopModule)] }
    d.nodes.get? "module.m" = some loopModule ∧ loopModule.kind ∈ [Kind.moduleCall] ∧
      ∃ e, d.blockAt (.text "module.m") [.moduleCall] = .error e := by
  intro d
  refine ⟨rfl, List.mem_singleton_self _, ?_⟩
  have hwrites := ((generated_unless_mistyped d).2 "module.m" loopModule [.moduleCall] rfl).1
    (.inr (List.mem_singleton_self _))
  exact hwrites.error_of_odd (by decide)

/-- Whether a diagram has no files because of a value of the wrong type. -/
def hitsWrongType (d : Diagram) : Bool :=
  match d.files "tf" false with
  | .error (.defect .wrongType) => true
  | _ => false

theorem exists_drawn_of_hitsWrongType {configuration : Value}
    (h : ((Configuration.drawn configuration Options.standard).toOption.any hitsWrongType) = true) :
    ∃ d, Configuration.drawn configuration Options.standard = .ok d ∧
      d.files "tf" false = .error (.defect .wrongType) := by
  cases hdrawn : Configuration.drawn configuration Options.standard with
  | error e =>
    rw [hdrawn] at h
    cases h
  | ok d =>
    rw [hdrawn] at h
    refine ⟨d, rfl, ?_⟩
    change hitsWrongType d = true at h
    unfold hitsWrongType at h
    split at h
    · assumption
    · cases h

/-- An iterator that is a number, and validations that are one, are used as what they are not: the
diagrams of two configurations have no files, and are not refused. -/
theorem exists_not_generated :
    (∃ d, Configuration.drawn (.record [("resource", .record [("t", .record [("n", .record
      [("dynamic", .record [("b", .record [("for_each", .list []), ("iterator", .int 5)])])])])])])
        Options.standard = .ok d ∧ d.files "tf" false = .error (.defect .wrongType)) ∧
    ∃ d, Configuration.drawn (.record [("variable", .record [("v", .record
      [("validation", .int 5)])])]) Options.standard = .ok d ∧
        d.files "tf" false = .error (.defect .wrongType) :=
  ⟨exists_drawn_of_hitsWrongType (by decide +kernel),
    exists_drawn_of_hitsWrongType (by decide +kernel)⟩

end Diagram

end BlockDiagram
