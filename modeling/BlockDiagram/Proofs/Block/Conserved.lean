import BlockDiagram.Proofs.Block.Answered
import BlockDiagram.Proofs.Block.Cleared
import BlockDiagram.Proofs.Block.Keeps
import BlockDiagram.Proofs.Block.Shape

/-!
# What a block keeps of the attributes

The body of a resource, data source or module has every leaf of its attributes, in a place of its
own, apart from the private ones, the dependencies, and the source of a module. What is ignored of
the descriptors of its dynamic blocks is missing, and the block is the same as without it.

* `Block.bodyFields`: the attributes of the body; `Block.clearedConfig`: without what is ignored.
* `Node.leaves_conserved`: every leaf stands in the block or is ignored, or there is no block.
* `Node.exists_leaf_not_conserved`: a block in which leaves of descriptors are missing.
-/

namespace BlockDiagram

namespace Block

/-- The attributes that a block of some kind writes elsewhere than in its body. -/
def elsewhere (kind : Kind) : List String := if kind = .moduleCall then ["source"] else []

/-- The attributes in the body of a block of some kind. -/
def bodyFields (kind : Kind) (fields : List (String × Value)) : List (String × Value) :=
  fields.filter fun field => isWritten (elsewhere kind) field.1

/-- The attributes without what is ignored of them in the body of a block of some kind. -/
def clearedConfig (kind : Kind) (fields : List (String × Value)) : List (String × Value) :=
  fields.map fun field =>
    (field.1, if isWritten (elsewhere kind) field.1 then cleared field.1 field.2 else field.2)

theorem elsewhere_of_isTyped {kind : Kind} (h : kind.isTyped = true) : elsewhere kind = [] := by
  rw [elsewhere, if_neg]
  rintro rfl
  cases h

theorem fieldsHaveDistinctKeys_filter {fields : List (String × Value)}
    (h : Value.fieldsHaveDistinctKeys fields = true) (p : String × Value → Bool) :
    Value.fieldsHaveDistinctKeys (fields.filter p) = true := by
  induction fields with
  | nil => rfl
  | cons field rest ih =>
    rw [Value.fieldsHaveDistinctKeys, Bool.and_eq_true] at h
    rw [List.filter_cons]
    split
    · rw [Value.fieldsHaveDistinctKeys, h.1, ih h.2]
      rfl
    · exact ih h.2

theorem keeps_blockOf {leaves : List Leaf} {lines : List String} (h : KeepsLines leaves lines)
    (header : String) : Keeps leaves (blockOf header lines) := by
  rw [blockOf]
  split
  · next hempty =>
    have hnil : Keeps leaves "" := by
      have hjoined := h ""
      rwa [List.isEmpty_iff.1 hempty] at hjoined
    have hbefore := hnil.before (header ++ " \x7b\n\x7d")
    rwa [String.empty_append] at hbefore
  · exact ((h "\n").after _).before _

variable {node : Node} {fields : List (String × Value)} {t : String}

/-! ## What the body keeps -/

theorem keeps_bodyLines {elsewhere : List String} {lines : List String}
    (hkeys : (Value.record fields).hasDistinctKeys = true)
    (h : bodyLines fields elsewhere = .ok lines) :
    KeepsLines (heeded (fieldLeaves (fields.filter fun field => isWritten elsewhere field.1)))
      lines := by
  rw [Value.hasDistinctKeys, Bool.and_eq_true] at hkeys
  exact keeps_attributeLines _ (fieldsHaveDistinctKeys_filter hkeys.2 _) h

theorem keeps_typedBlock (hconfig : node.config.orElse (.record []) = .record fields)
    (hkind : node.kind.isTyped = true) (hkeys : (Value.record fields).hasDistinctKeys = true)
    (h : typedBlock node = .ok t) :
    Keeps (heeded (fieldLeaves (bodyFields node.kind fields))) t := by
  rw [typedBlock] at h
  obtain ⟨⟨type, name⟩, hlabels, h⟩ := Outcome.bind_eq_ok.1 h
  obtain ⟨found, hfound, h⟩ := Outcome.bind_eq_ok.1 h
  cases hconfig.symm.trans (config_of_attributesOf hfound)
  obtain ⟨body, hbody, h⟩ := Outcome.bind_eq_ok.1 h
  obtain ⟨dependencies, hdependencies, h⟩ := Outcome.bind_eq_ok.1 h
  cases h
  rw [bodyFields, elsewhere_of_isTyped hkind]
  exact keeps_blockOf ((keeps_bodyLines hkeys hbody).before dependencies) _

theorem keeps_moduleBlock (hconfig : node.config.orElse (.record []) = .record fields)
    (hkind : node.kind = .moduleCall) (hkeys : (Value.record fields).hasDistinctKeys = true)
    (h : moduleBlock node = .ok t) :
    Keeps (heeded (fieldLeaves (bodyFields node.kind fields))) t := by
  rw [moduleBlock] at h
  obtain ⟨name, hname, h⟩ := Outcome.bind_eq_ok.1 h
  obtain ⟨found, hfound, h⟩ := Outcome.bind_eq_ok.1 h
  cases hconfig.symm.trans (config_of_attributesOf hfound)
  obtain ⟨origin, horigin, h⟩ := Outcome.bind_eq_ok.1 h
  obtain ⟨body, hbody, h⟩ := Outcome.bind_eq_ok.1 h
  obtain ⟨dependencies, hdependencies, h⟩ := Outcome.bind_eq_ok.1 h
  cases h
  rw [hkind]
  exact keeps_blockOf (((keeps_bodyLines hkeys hbody).after [_]).before dependencies) _

/-! ## What is ignored -/

theorem bodyFields_clearedConfig (kind : Kind) (fields : List (String × Value)) :
    bodyFields kind (clearedConfig kind fields) = clearedFields (bodyFields kind fields) := by
  induction fields with
  | nil => rfl
  | cons entry rest ih =>
    obtain ⟨key, value⟩ := entry
    simp only [bodyFields, clearedConfig, List.map_cons, List.filter_cons] at ih ⊢
    rw [ih]
    split
    · rw [clearedFields]
    · rfl

theorem bodyLines_clearedConfig (kind : Kind)
    (hkeys : (Value.record fields).hasDistinctKeys = true) :
    bodyLines (clearedConfig kind fields) (elsewhere kind) = bodyLines fields (elsewhere kind) := by
  rw [Value.hasDistinctKeys, Bool.and_eq_true] at hkeys
  have hlines := attributeLines_clearedFields 1 (bodyFields kind fields)
    (fieldsHaveDistinctKeys_filter hkeys.2 _)
  rwa [← bodyFields_clearedConfig] at hlines

theorem field_clearedConfig {kind : Kind} {key : String}
    (hkey : isWritten (elsewhere kind) key = false) (fields : List (String × Value)) :
    (Value.record (clearedConfig kind fields)).field key = (Value.record fields).field key := by
  rw [Value.field, Value.field, clearedConfig, Table.get?_map
    fun field => if isWritten (elsewhere kind) field.1 then cleared field.1 field.2 else field.2]
  cases Table.get? fields key with
  | none => rfl
  | some value =>
    rw [Option.map_some, hkey]
    rfl

theorem attributesOf_clearedConfig (node : Node) (fields : List (String × Value)) :
    attributesOf { node with config := .record (clearedConfig node.kind fields) }
      = .ok (clearedConfig node.kind fields) := by
  rw [attributesOf]
  cases clearedConfig node.kind fields <;> rfl

theorem attributesOf_eq_ok (hconfig : node.config.orElse (.record []) = .record fields) :
    attributesOf node = .ok fields := by
  rw [attributesOf, hconfig]

theorem dependencyLines_clearedConfig (node : Node) (fields : List (String × Value)) :
    dependencyLines { node with config := .record (clearedConfig node.kind fields) }
        (clearedConfig node.kind fields) = dependencyLines node fields := by
  rw [dependencyLines, dependencyLines, field_clearedConfig (by simp [isWritten])]
  rfl

theorem typedBlock_clearedConfig (hconfig : node.config.orElse (.record []) = .record fields)
    (hkind : node.kind.isTyped = true) (hkeys : (Value.record fields).hasDistinctKeys = true) :
    typedBlock { node with config := .record (clearedConfig node.kind fields) }
      = typedBlock node := by
  have hbody := bodyLines_clearedConfig node.kind hkeys
  rw [elsewhere_of_isTyped hkind] at hbody
  have hlabels : typeAndNameOf { node with config := .record (clearedConfig node.kind fields) }
      = typeAndNameOf node := rfl
  rw [typedBlock, typedBlock, attributesOf_clearedConfig, attributesOf_eq_ok hconfig, hlabels]
  simp only [bind, Except.bind, hbody, dependencyLines_clearedConfig]

theorem moduleBlock_clearedConfig (hconfig : node.config.orElse (.record []) = .record fields)
    (hkind : node.kind = .moduleCall) (hkeys : (Value.record fields).hasDistinctKeys = true) :
    moduleBlock { node with config := .record (clearedConfig node.kind fields) }
      = moduleBlock node := by
  have hwhere : elsewhere node.kind = ["source"] := by rw [hkind]; rfl
  have hbody := bodyLines_clearedConfig node.kind hkeys
  rw [hwhere] at hbody
  have hsource : (Value.record (clearedConfig node.kind fields)).field "source"
      = (Value.record fields).field "source" :=
    field_clearedConfig (by rw [hwhere]; simp [isWritten]) fields
  have hname : nameOf { node with config := .record (clearedConfig node.kind fields) }
      = nameOf node := rfl
  rw [moduleBlock, moduleBlock, attributesOf_clearedConfig, attributesOf_eq_ok hconfig, hname]
  simp only [bind, Except.bind, hsource, hbody, dependencyLines_clearedConfig]

end Block

open Block

variable {node : Node} {fields : List (String × Value)}

theorem Node.blockText_of_isTyped (h : node.kind.isTyped = true) :
    node.blockText = typedBlock node := by
  unfold Node.blockText
  split
  · rfl
  · rfl
  all_goals next hkind => rw [hkind] at h; cases h

theorem Node.blockText_of_moduleCall (h : node.kind = .moduleCall) :
    node.blockText = moduleBlock node := by
  rw [Node.blockText, h]

theorem Kind.isTyped_or_eq_moduleCall {kind : Kind}
    (h : kind ∈ [Kind.resource, .dataSource, .moduleCall]) :
    kind.isTyped = true ∨ kind = .moduleCall := by
  revert h
  cases kind <;> decide

theorem Node.keeps_blockText {t : String}
    (hkind : node.kind ∈ [Kind.resource, .dataSource, .moduleCall])
    (hconfig : node.config.orElse (.record []) = .record fields)
    (hkeys : (Value.record fields).hasDistinctKeys = true) (h : node.blockText = .ok t) :
    Keeps (heeded (fieldLeaves (bodyFields node.kind fields))) t := by
  rcases Kind.isTyped_or_eq_moduleCall hkind with htyped | hmodule
  · rw [Node.blockText_of_isTyped htyped] at h
    exact keeps_typedBlock hconfig htyped hkeys h
  · rw [Node.blockText_of_moduleCall hmodule] at h
    exact keeps_moduleBlock hconfig hmodule hkeys h

/-- What is ignored of the attributes has no part in the block. -/
theorem Node.blockText_clearedConfig (hkind : node.kind ∈ [Kind.resource, .dataSource, .moduleCall])
    (hconfig : node.config.orElse (.record []) = .record fields)
    (hkeys : (Value.record fields).hasDistinctKeys = true) :
    ({ node with config := .record (clearedConfig node.kind fields) } : Node).blockText
      = node.blockText := by
  rcases Kind.isTyped_or_eq_moduleCall hkind with htyped | hmodule
  · rw [Node.blockText_of_isTyped htyped, ← typedBlock_clearedConfig hconfig htyped hkeys]
    exact Node.blockText_of_isTyped htyped
  · rw [Node.blockText_of_moduleCall hmodule, ← moduleBlock_clearedConfig hconfig hmodule hkeys]
    exact Node.blockText_of_moduleCall hmodule

/-- A block is only written of attributes. -/
theorem Node.exists_config_of_blockText {t : String}
    (hkind : node.kind ∈ [Kind.resource, .dataSource, .moduleCall]) (h : node.blockText = .ok t) :
    ∃ fields, node.config.orElse (.record []) = .record fields := by
  rcases Kind.isTyped_or_eq_moduleCall hkind with htyped | hmodule
  · rw [Node.blockText_of_isTyped htyped, typedBlock] at h
    obtain ⟨labels, -, h⟩ := Outcome.bind_eq_ok.1 h
    obtain ⟨fields, hfields, -⟩ := Outcome.bind_eq_ok.1 h
    exact ⟨fields, config_of_attributesOf hfields⟩
  · rw [Node.blockText_of_moduleCall hmodule, moduleBlock] at h
    obtain ⟨name, -, h⟩ := Outcome.bind_eq_ok.1 h
    obtain ⟨fields, hfields, -⟩ := Outcome.bind_eq_ok.1 h
    exact ⟨fields, config_of_attributesOf hfields⟩

/-- In the block of a resource, data source or module every leaf of the attributes in its body
stands in a place of its own, unless it is ignored. What is ignored can be taken away: it leaves the
other leaves and the same block. Without a block the node is refused, or holds what is used as what
it is not. -/
theorem Node.leaves_conserved (hkind : node.kind ∈ [Kind.resource, .dataSource, .moduleCall])
    (hkeys : node.config.hasDistinctKeys = true) :
    WritesUnless node.isMistyped node.blockText ∧
      ∀ t, node.blockText = .ok t → ∃ fields,
        node.config.orElse (.record []) = .record fields ∧
        let leaves := fieldLeaves (bodyFields node.kind fields)
        let kept := clearedConfig node.kind fields
        leaves.map Leaf.value = Value.fieldLeaves (bodyFields node.kind fields) ∧
          Keeps (heeded leaves) t ∧
          (∀ leaf ∈ leaves, leaf.form ≠ .ignored →
            ∃ s, leaf.IsWritten s ∧ s.toList <:+: t.toList) ∧
          fieldLeaves (bodyFields node.kind kept) = heeded leaves ∧
          ({ node with config := .record kept } : Node).blockText = .ok t := by
  refine ⟨node.writesUnless_blockText, fun t ht => ?_⟩
  obtain ⟨fields, hconfig⟩ := node.exists_config_of_blockText hkind ht
  have hdistinct : (Value.record fields).hasDistinctKeys = true := by
    rw [← hconfig, Value.orElse]
    split
    · exact hkeys
    · rfl
  have hkeeps := node.keeps_blockText hkind hconfig hdistinct ht
  refine ⟨fields, hconfig, map_value_fieldLeaves _, hkeeps, fun leaf hleaf hform => ?_, ?_, ?_⟩
  · exact hkeeps.exists_infix (List.mem_filter.2 ⟨hleaf, decide_eq_true hform⟩)
  · rw [bodyFields_clearedConfig, fieldLeaves_clearedFields]
  · rw [node.blockText_clearedConfig hkind hconfig hdistinct, ht]

/-- A resource with a dynamic block in the content of another one. -/
def gateway : Node :=
  { id := "resource.t.gateway", kind := .resource, name := some "gateway", resourceType := some "t"
    label := .null
    config := .record [("_note", .text "private"), ("region", .text "$\x7bvar.region\x7d"),
      ("rule", .record [("content", .record [("port", .record [("for_each", .list [.int 80]),
          ("content", .record [("tags", .record [("a b", .bool true)])])])]),
        ("labels", .list [.text "in", .int 1]), ("iterator", .text "r"), ("type", .text "ingress"),
        ("for_each", .text "$\x7blocal.rules\x7d"), ("comment", .text "unread")]),
      ("depends_on", .list [.text "var.region"])]
    x := .int 0, y := .int 0, width := .int 200, height := .int 100, icon := .null }

theorem Node.leaves_conserved_gateway :
    gateway.kind ∈ [Kind.resource, .dataSource, .moduleCall] ∧
      gateway.config.hasDistinctKeys = true ∧
      ∃ t fields, gateway.blockText = .ok t ∧ gateway.config.orElse (.record []) = .record fields ∧
        Keeps (heeded (fieldLeaves (bodyFields .resource fields))) t := by
  have hkind : gateway.kind ∈ [Kind.resource, .dataSource, .moduleCall] := by decide
  have hkeys : gateway.config.hasDistinctKeys = true := by decide +kernel
  obtain ⟨t, ht⟩ := Outcome.exists_eq_ok_of_isOk (x := gateway.blockText) (by decide +kernel)
  obtain ⟨fields, hconfig, -, hkeeps, -⟩ := (Node.leaves_conserved hkind hkeys).2 t ht
  exact ⟨hkind, hkeys, t, fields, ht, hconfig, hkeeps⟩

/-- A resource with a descriptor of which nothing but the collection is read. -/
def overlooked : Node :=
  { gateway with config := .record [("dynamic", .record [("rule", .record [("for_each", .list []),
      ("type", .text "kind"), ("iterator", .int 0), ("labels", .text "mark"),
      ("content", .list [.record [("port", .int 7)]]), ("timeout", .text "soon")])])] }

/-- A descriptor's content that is no record, labels that are no list, an iterator that does not
count as given, the type of a descriptor that stands under another one, and any other entry are
missing in the block, as literals and as they are shown. -/
theorem Node.exists_leaf_not_conserved : ∃ t, overlooked.blockText = .ok t ∧
    overlooked.config.leaves
      = [.text "kind", .int 0, .text "mark", .int 7, .text "soon"] ∧
    ∀ value ∈ overlooked.config.leaves, ∃ s, literal 0 value 0 = .ok s ∧
      ¬ s.toList <:+: t.toList ∧ ¬ value.shown.toList <:+: t.toList := by
  have hleaves : overlooked.config.leaves
      = [.text "kind", .int 0, .text "mark", .int 7, .text "soon"] := rfl
  have htext : overlooked.blockText = .ok ("resource \"t\" \"gateway\" \x7b\n"
      ++ "  dynamic \"rule\" \x7b\n    for_each = []\n  \x7d\n\x7d") := by cbv
  refine ⟨_, htext, hleaves, ?_⟩
  rw [hleaves]
  simp only [List.mem_cons, List.not_mem_nil, or_false]
  rintro value (rfl | rfl | rfl | rfl | rfl)
  · exact ⟨"\"kind\"", by cbv, by decide +kernel, by decide +kernel⟩
  · exact ⟨"0", by cbv, by decide +kernel, by decide +kernel⟩
  · exact ⟨"\"mark\"", by cbv, by decide +kernel, by decide +kernel⟩
  · exact ⟨"7", by cbv, by decide +kernel, by decide +kernel⟩
  · exact ⟨"\"soon\"", by cbv, by decide +kernel, by decide +kernel⟩

end BlockDiagram
