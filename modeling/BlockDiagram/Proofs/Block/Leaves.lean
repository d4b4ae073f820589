import BlockDiagram.Block.Attribute
import BlockDiagram.Proofs.Block.Leads

/-!
# Leaves of attributes

The leaves of a value are the texts, numbers and truth values in it. In a block each leaf of an
attribute has a form: it stands as a literal, or, in the descriptor of a dynamic block, in quotes or
bare, and what a descriptor holds beside what is read of it is ignored.

* `Value.leaves`: the leaves of a value.
* `attributeLeaves`: the leaves of an attribute with their forms; `map_value_attributeLeaves`: all
  of them.
* `heeded`: the leaves that are not ignored.
-/

namespace BlockDiagram

namespace Value

mutual

/-- The texts, numbers and truth values in a value, depth first. -/
def leaves : Value → List Value
  | null => []
  | list items => itemLeaves items
  | record fields => fieldLeaves fields
  | value => [value]

def itemLeaves : List Value → List Value
  | [] => []
  | item :: rest => leaves item ++ itemLeaves rest

def fieldLeaves : List (String × Value) → List Value
  | [] => []
  | (_, value) :: rest => leaves value ++ fieldLeaves rest

end

end Value

namespace Block

/-! ## Forms -/

/-- How a leaf stands in a block. -/
inductive Form where
  /-- As a literal. -/
  | literal
  /-- In quotes, a text for itself and anything else as it is shown. -/
  | quoted
  /-- As it is shown inside a list or a record, which stands in quotes as a whole. -/
  | shown
  /-- Without quotes, as the expression of a reference or for itself. -/
  | bare
  /-- Nowhere, as what is no descriptor where one belongs is refused. -/
  | refused
  /-- Nowhere, although the block is written. -/
  | ignored
deriving DecidableEq

/-- A leaf of an attribute. -/
structure Leaf where
  form : Form
  value : Value

/-- A text as it stands between quotes. -/
def inQuotes (s : String) : String := String.ofList (escaped s.toList)

/-- What a leaf stands as. -/
inductive Leaf.IsWritten : Leaf → String → Prop
  | literal {value : Value} {s : String} (h : Block.literal 0 value 0 = .ok s) :
    IsWritten ⟨.literal, value⟩ s
  | quoted (value : Value) : IsWritten ⟨.quoted, value⟩ (quote value.shown)
  | shown (value : Value) : IsWritten ⟨.shown, value⟩ (inQuotes value.quoted)
  | bare (s : String) : IsWritten ⟨.bare, .text s⟩ (Reference.wholeOr s s)

def leavesIn (form : Form) (values : List Value) : List Leaf :=
  values.map fun value => ⟨form, value⟩

/-- The leaves of a value that stands in quotes as it is shown. -/
def shownLeaves : Value → List Leaf
  | .list items => leavesIn .shown (Value.itemLeaves items)
  | .record fields => leavesIn .shown (Value.fieldLeaves fields)
  | value => leavesIn .quoted value.leaves

/-- The leaves of labels, which are read from a list alone. -/
def labelLeaves : Value → List Leaf
  | .list labels => labels.flatMap shownLeaves
  | value => leavesIn .ignored value.leaves

/-- The leaves of an entry of a descriptor, its content apart. A type or an iterator that does not
count as given is ignored, and so is the type of a descriptor that stands under its block type. -/
def headLeaves (isNamed : Bool) (key : String) (value : Value) : List Leaf :=
  if key = "for_each" then leavesIn .literal value.leaves
  else if key = "type" ∧ isNamed = false ∧ value.isTruthy = true then shownLeaves value
  else if key = "iterator" ∧ value.isTruthy = true then leavesIn .bare value.leaves
  else if key = "labels" then labelLeaves value
  else leavesIn .ignored value.leaves

mutual

/-- The leaves of an attribute. -/
def attributeLeaves (key : String) : Value → List Leaf
  | .record fields =>
    if isDescriptor fields then descriptorLeaves false fields
    else if key = "dynamic" then entryLeaves fields
    else if fields.all fun field => isBareKey field.1 then fieldLeaves fields
    else leavesIn .literal (Value.fieldLeaves fields)
  | .list items =>
    if key = "dynamic" then itemLeaves items else leavesIn .literal (Value.itemLeaves items)
  | value => leavesIn .literal value.leaves

/-- The leaves of several attributes. -/
def fieldLeaves : List (String × Value) → List Leaf
  | [] => []
  | (key, value) :: rest => attributeLeaves key value ++ fieldLeaves rest

/-- The leaves of a descriptor. -/
def descriptorLeaves (isNamed : Bool) : List (String × Value) → List Leaf
  | [] => []
  | (key, .record fields) :: rest =>
    (if key = "content" then fieldLeaves fields else headLeaves isNamed key (.record fields))
      ++ descriptorLeaves isNamed rest
  | (key, value) :: rest => headLeaves isNamed key value ++ descriptorLeaves isNamed rest

/-- The leaves of descriptors under their block types. -/
def entryLeaves : List (String × Value) → List Leaf
  | [] => []
  | (_, .record fields) :: rest => descriptorLeaves true fields ++ entryLeaves rest
  | (_, value) :: rest => leavesIn .refused value.leaves ++ entryLeaves rest

/-- The leaves of descriptors in a list. -/
def itemLeaves : List Value → List Leaf
  | [] => []
  | .record fields :: rest =>
    (if isDescriptor fields then descriptorLeaves false fields else entryLeaves fields)
      ++ itemLeaves rest
  | value :: rest => leavesIn .refused value.leaves ++ itemLeaves rest

end

/-! ## Every leaf is listed -/

theorem map_value_leavesIn (form : Form) (values : List Value) :
    (leavesIn form values).map Leaf.value = values := by
  rw [leavesIn, List.map_map]
  exact List.map_id values

theorem map_value_shownLeaves (value : Value) :
    (shownLeaves value).map Leaf.value = value.leaves := by
  cases value <;> exact map_value_leavesIn _ _

theorem map_value_labelLeaves (value : Value) :
    (labelLeaves value).map Leaf.value = value.leaves := by
  cases value with
  | list labels =>
    rw [labelLeaves, Value.leaves]
    induction labels with
    | nil => rfl
    | cons label rest ih =>
      rw [List.flatMap_cons, List.map_append, map_value_shownLeaves, ih, Value.itemLeaves]
  | _ => exact map_value_leavesIn _ _

theorem map_value_headLeaves (isNamed : Bool) (key : String) (value : Value) :
    (headLeaves isNamed key value).map Leaf.value = value.leaves := by
  unfold headLeaves
  split
  · exact map_value_leavesIn _ _
  split
  · exact map_value_shownLeaves value
  split
  · exact map_value_leavesIn _ _
  split
  · exact map_value_labelLeaves value
  · exact map_value_leavesIn _ _

mutual

theorem map_value_attributeLeaves (key : String) : ∀ value : Value,
    (attributeLeaves key value).map Leaf.value = value.leaves
  | .record fields => by
    rw [attributeLeaves, Value.leaves]
    split
    · exact map_value_descriptorLeaves false fields
    split
    · exact map_value_entryLeaves fields
    split
    · exact map_value_fieldLeaves fields
    · exact map_value_leavesIn _ _
  | .list items => by
    rw [attributeLeaves, Value.leaves]
    split
    · exact map_value_itemLeaves items
    · exact map_value_leavesIn _ _
  | .null => rfl
  | .bool _ => rfl
  | .int _ => rfl
  | .float _ => rfl
  | .text _ => rfl

theorem map_value_fieldLeaves : ∀ fields : List (String × Value),
    (fieldLeaves fields).map Leaf.value = Value.fieldLeaves fields
  | [] => rfl
  | (key, value) :: rest => by
    rw [fieldLeaves, Value.fieldLeaves, List.map_append, map_value_attributeLeaves key value,
      map_value_fieldLeaves rest]

theorem map_value_descriptorLeaves (isNamed : Bool) : ∀ fields : List (String × Value),
    (descriptorLeaves isNamed fields).map Leaf.value = Value.fieldLeaves fields
  | [] => rfl
  | (key, value) :: rest => by
    have hrest := map_value_descriptorLeaves isNamed rest
    have hhead := map_value_headLeaves isNamed key value
    cases value with
    | record fields =>
      rw [descriptorLeaves, Value.fieldLeaves, List.map_append, hrest]
      split
      · rw [map_value_fieldLeaves fields, Value.leaves]
      · rw [hhead]
    | _ =>
      simp only [descriptorLeaves]
      rw [Value.fieldLeaves, List.map_append, hrest, hhead]

theorem map_value_entryLeaves : ∀ fields : List (String × Value),
    (entryLeaves fields).map Leaf.value = Value.fieldLeaves fields
  | [] => rfl
  | (key, value) :: rest => by
    have hrest := map_value_entryLeaves rest
    cases value with
    | record fields =>
      rw [entryLeaves, Value.fieldLeaves, List.map_append, hrest,
        map_value_descriptorLeaves true fields, Value.leaves]
    | _ =>
      simp only [entryLeaves]
      rw [Value.fieldLeaves, List.map_append, hrest, map_value_leavesIn]

theorem map_value_itemLeaves : ∀ items : List Value,
    (itemLeaves items).map Leaf.value = Value.itemLeaves items
  | [] => rfl
  | item :: rest => by
    have hrest := map_value_itemLeaves rest
    cases item with
    | record fields =>
      rw [itemLeaves, Value.itemLeaves, List.map_append, hrest, Value.leaves]
      split
      · rw [map_value_descriptorLeaves false fields]
      · rw [map_value_entryLeaves fields]
    | _ =>
      simp only [itemLeaves]
      rw [Value.itemLeaves, List.map_append, hrest, map_value_leavesIn]

end

/-! ## Leaves that are not ignored -/

/-- The leaves that are not ignored. -/
def heeded (leaves : List Leaf) : List Leaf := leaves.filter fun leaf => leaf.form ≠ .ignored

theorem heeded_append (leaves others : List Leaf) :
    heeded (leaves ++ others) = heeded leaves ++ heeded others :=
  List.filter_append ..

theorem heeded_leavesIn {form : Form} (h : form ≠ .ignored) (values : List Value) :
    heeded (leavesIn form values) = leavesIn form values := by
  refine List.filter_eq_self.2 fun leaf hleaf => ?_
  obtain ⟨value, -, rfl⟩ := List.mem_map.1 hleaf
  exact decide_eq_true h

theorem heeded_ignored (values : List Value) : heeded (leavesIn .ignored values) = [] := by
  refine List.filter_eq_nil_iff.2 fun leaf hleaf => ?_
  obtain ⟨value, -, rfl⟩ := List.mem_map.1 hleaf
  simp

theorem heeded_shownLeaves (value : Value) : heeded (shownLeaves value) = shownLeaves value := by
  cases value <;> exact heeded_leavesIn (by decide) _

theorem heeded_labelLeaves (labels : List Value) :
    heeded (labelLeaves (.list labels)) = labelLeaves (.list labels) := by
  rw [labelLeaves]
  induction labels with
  | nil => rfl
  | cons label rest ih => rw [List.flatMap_cons, heeded_append, heeded_shownLeaves, ih]

end Block

end BlockDiagram
