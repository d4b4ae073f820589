import BlockDiagram.Block
import BlockDiagram.Proofs.Block.Attribute

/-!
# The shape of a block

The block of a node is a heading, then in braces a body that leads from any depth back to it,
provided that the texts which the block writes without quotes are clean. The heading holds the
kind's keyword and the node's labels in quotes.

* `Node.bareTexts`: the texts that have to be clean.
* `Node.isBlockOf_blockText`: the shape.
-/

namespace BlockDiagram

namespace Block

/-! ## Texts without quotes -/

/-- The attributes of a body, their keys included. -/
def bodyTexts (fields : List (String × Value)) (elsewhere : List String) : List String :=
  let written := fields.filter fun field => isWritten elsewhere field.1
  keyTexts written ++ fieldTexts written

/-- The addresses of dependencies. -/
def dependencyTexts : Value → List String
  | .list entries => (entries.filterMap Value.text?).map fun s => Reference.address (Text.trimmed s)
  | _ => []

/-- The type of a variable. -/
def typeTexts : Value → List String
  | .text expression => [Reference.wholeOr expression expression]
  | _ => []

/-- The attributes of one validation, their keys included, or of several. -/
def validationTexts : Value → List String
  | .record fields => keyTexts fields ++ fieldTexts fields
  | .list values => values.flatMap fun value =>
    match value with
    | .record fields => keyTexts fields ++ fieldTexts fields
    | _ => []
  | _ => []

end Block

open Block in
/-- What the block of a node writes without quotes and is not clean by itself. -/
def Node.bareTexts (node : Node) : List String :=
  match node.config.orElse (.record []) with
  | .record fields =>
    let given := (Value.record fields).field
    match node.kind with
    | .resource | .dataSource => bodyTexts fields [] ++ dependencyTexts (given "depends_on")
    | .moduleCall =>
      wholes (given "source") ++ bodyTexts fields ["source"] ++ dependencyTexts (given "depends_on")
    | .inputVariable =>
      typeTexts (given "type") ++ wholes (given "default") ++ validationTexts (given "validation")
    | .outputValue => wholes (given "value") ++ dependencyTexts (given "depends_on")
  | _ => []

namespace Block

variable {node : Node} {fields : List (String × Value)} {lines : List String}

/-! ## Lines of a body -/

theorem leads_line {key text : String} {n : Nat} (hkey : IsClean key) (h : LeadsString n n text) :
    LeadsString n n (line key text) := by
  have hsign := (leads_indented hkey 1 n).append (leads_clean (show IsClean " = " by decide) n)
  exact hsign.append h

theorem leads_bodyLines {elsewhere : List String}
    (hclean : ∀ text ∈ bodyTexts fields elsewhere, IsClean text)
    (h : bodyLines fields elsewhere = .ok lines) (n : Nat) : LeadsLines n n lines := by
  rw [bodyTexts, List.forall_mem_append] at hclean
  exact leads_attributeLines n _ hclean.1 hclean.2 h

theorem leads_dependencyLine {entry : Value} {text : String}
    (hclean : ∀ s, entry = .text s → IsClean (Reference.address (Text.trimmed s)))
    (h : dependencyLine node entry = .ok text) (n : Nat) : LeadsString n n text := by
  cases entry with
  | text s =>
    rw [dependencyLine] at h
    split at h
    · cases h
    · cases h
      exact (leads_indented (hclean s rfl) 2 n).append (leads_clean (by decide) n)
  | _ => cases h

theorem leads_dependencyLines
    (hclean : ∀ text ∈ dependencyTexts ((Value.record fields).field "depends_on"), IsClean text)
    (h : dependencyLines node fields = .ok lines) (n : Nat) : LeadsLines n n lines := by
  rw [dependencyLines] at h
  generalize (Value.record fields).field "depends_on" = given at hclean h
  split at h
  · cases given with
    | list entries =>
      obtain ⟨found, hfound, h⟩ := Outcome.bind_eq_ok.1 h
      cases h
      have hopening := leads_indented (show IsClean "depends_on = [" by decide) 1 n
      have hclosing := leads_indented (show IsClean "]" by decide) 1 n
      have hlines : LeadsLines n n found := by
        apply leadsLines_of_forall
        intro text htext
        obtain ⟨entry, hentry, hline⟩ := Outcome.mem_of_mapM_eq_ok hfound text htext
        refine leads_dependencyLine ?_ hline n
        rintro s rfl
        apply hclean
        exact List.mem_map_of_mem (List.mem_filterMap.2 ⟨_, hentry, rfl⟩)
      exact ((LeadsLines.single hopening).append hlines).append (.single hclosing)
    | _ => cases h
  · cases h
    exact .nil

theorem leads_descriptionLines (config : Value) (n : Nat) :
    LeadsLines n n (descriptionLines config) := by
  unfold descriptionLines
  dsimp only
  split
  · exact .single (leads_line (by decide) (leads_quote _ n))
  · exact .nil

theorem leads_typeLines
    (hclean : ∀ text ∈ typeTexts ((Value.record fields).field "type"), IsClean text)
    (h : typeLines node (.record fields) = .ok lines) (n : Nat) : LeadsLines n n lines := by
  rw [typeLines] at h
  generalize (Value.record fields).field "type" = given at hclean h
  split at h
  · cases given with
    | text expression =>
      cases h
      have htype := hclean _ (List.mem_singleton_self _)
      exact .single (leads_line (by decide) (leads_clean htype n))
    | _ => cases h
  · cases h
    exact .nil

theorem leads_defaultLines
    (hclean : ∀ text ∈ wholes ((Value.record fields).field "default"), IsClean text)
    (h : defaultLines fields = .ok lines) (n : Nat) : LeadsLines n n lines := by
  unfold defaultLines at h
  split at h
  · next value hvalue =>
    obtain ⟨text, htext, h⟩ := Outcome.bind_eq_ok.1 h
    cases h
    rw [Value.field, hvalue] at hclean
    exact .single (leads_line (by decide) (leads_literal n _ hclean htext))
  · cases h
    exact .nil

theorem leads_flagLines (config : Value) {key : String} (hkey : IsClean key) (n : Nat) :
    LeadsLines n n (flagLines config key) := by
  unfold flagLines
  split
  · next b _ =>
    have hword : IsClean (if b then "true" else "false") := by
      cases b <;> decide
    exact .single (leads_line hkey (leads_clean hword n))
  · exact .nil

theorem leads_validationLines (hclean : ∀ text ∈ keyTexts fields ++ fieldTexts fields, IsClean text)
    (h : validationLines node (.record fields) = .ok lines) (n : Nat) : LeadsLines n n lines := by
  rw [List.forall_mem_append] at hclean
  rw [validationLines] at h
  obtain ⟨body, hbody, h⟩ := Outcome.bind_eq_ok.1 h
  cases h
  have hopening := (leads_indent 1 n).append
    (leads_opened (show IsClean "validation " by decide) n)
  have hinner := leads_attributeLines (n + 1) fields hclean.1 hclean.2 hbody
  have hclosing := leads_closed (isClean_indent 1) n
  exact ((LeadsLines.single hopening).append hinner).append (.single hclosing)

theorem leadsLines_flatten {groups : List (List String)} {n : Nat}
    (h : ∀ group ∈ groups, LeadsLines n n group) : LeadsLines n n groups.flatten := by
  induction groups with
  | nil => exact .nil
  | cons group groups ih =>
    have hrest := ih fun other hother => h other (List.mem_cons_of_mem _ hother)
    exact (h group List.mem_cons_self).append hrest

theorem leads_allValidationLines
    (hclean : ∀ text ∈ validationTexts ((Value.record fields).field "validation"), IsClean text)
    (h : allValidationLines node (.record fields) = .ok lines) (n : Nat) :
    LeadsLines n n lines := by
  rw [allValidationLines] at h
  generalize (Value.record fields).field "validation" = given at hclean h
  split at h
  · cases given with
    | record inner => exact leads_validationLines hclean h n
    | list values =>
      obtain ⟨groups, hgroups, h⟩ := Outcome.bind_eq_ok.1 h
      cases h
      apply leadsLines_flatten
      intro group hgroup
      obtain ⟨value, hvalue, hlines⟩ := Outcome.mem_of_mapM_eq_ok hgroups group hgroup
      cases value with
      | record inner =>
        refine leads_validationLines ?_ hlines n
        exact fun text htext => hclean text (List.mem_flatMap.2 ⟨_, hvalue, htext⟩)
      | _ => cases hlines
    | _ => cases h
  · cases h
    exact .nil

theorem leads_sensitivityLines (config : Value) (n : Nat) :
    LeadsLines n n (sensitivityLines config) := by
  unfold sensitivityLines
  dsimp only
  split
  · exact .nil
  · have hword : IsClean (if isSensitive (config.field "sensitive") then "true" else "false") := by
      split <;> decide
    exact .single (leads_line (by decide) (leads_clean hword n))

/-! ## Headings -/

/-- The labels of a node's block: its type if its kind has types, and its name. -/
def labels? (node : Node) : Option (List String) := do
  let name ← node.name
  if node.kind.isTyped then
    let type ← node.resourceType
    return [type, name]
  else return [name]

/-- A keyword and labels in quotes. -/
def headingOf (keyword : String) (labels : List String) : String :=
  keyword ++ Text.join "" (labels.map fun label => " " ++ quote label)

theorem leads_headingOf {keyword : String} (h : IsClean keyword) (labels : List String) (n : Nat) :
    LeadsString n n (headingOf keyword labels) := by
  have hlabels : LeadsLines n n (labels.map fun label => " " ++ quote label) := by
    apply leadsLines_of_forall
    intro text htext
    obtain ⟨label, -, rfl⟩ := List.mem_map.1 htext
    exact (leads_clean (by decide) n).append (leads_quote label n)
  exact (leads_clean h n).append (hlabels.join (by decide))

/-- A text is a block: a heading and a body that leads back to where it starts. -/
def IsBlock (heading text : String) : Prop :=
  ∃ body, text = heading ++ " \x7b" ++ body ++ "\x7d" ∧ ∀ n, LeadsString n n body

/-- A text is the block of a node: its kind and labels stand in the heading. -/
def IsBlockOf (node : Node) (t : String) : Prop :=
  ∃ labels, labels? node = some labels ∧ IsBlock (headingOf node.kind.key labels) t

theorem isBlock_blockOf (heading : String) (h : ∀ n, LeadsLines n n lines) :
    IsBlock heading (blockOf heading lines) := by
  have hbreak : ∀ n, LeadsString n n "\n" := leads_clean (by decide)
  rw [blockOf]
  split
  · refine ⟨"\n", ?_, hbreak⟩
    rw [String.append_assoc, String.append_assoc]
    rfl
  · refine ⟨"\n" ++ Text.join "\n" lines ++ "\n", ?_, ?_⟩
    · simp only [String.append_assoc]
      rfl
    · exact fun n => ((hbreak n).append ((h n).join (by decide))).append (hbreak n)

theorem headingOf_one (keyword name : String) :
    headingOf keyword [name] = keyword ++ (" " ++ quote name) := rfl

theorem headingOf_two (keyword type name : String) :
    headingOf keyword [type, name] = keyword ++ " " ++ quote type ++ " " ++ quote name := by
  simp [headingOf, Text.join, String.append_assoc]

/-! ## Kinds -/

variable {t : String}

theorem name_eq_of_nameOf {name : String} (h : nameOf node = .ok name) : node.name = some name := by
  unfold nameOf at h
  split at h
  · next found hname =>
    split at h
    · cases h
    · cases h
      exact hname
  · cases h

theorem eq_some_of_getD {given : Option String} (h : given.getD "" ≠ "") :
    given = some (given.getD "") := by
  cases given with
  | none => exact absurd rfl h
  | some s => rfl

theorem eq_of_typeAndNameOf {type name : String} (h : typeAndNameOf node = .ok (type, name)) :
    node.resourceType = some type ∧ node.name = some name := by
  rw [typeAndNameOf] at h
  split at h
  · cases h
  · next hname =>
    split at h
    · cases h
    · next htype =>
      cases h
      exact ⟨eq_some_of_getD htype, eq_some_of_getD hname⟩

theorem config_of_attributesOf (h : attributesOf node = .ok fields) :
    node.config.orElse (.record []) = .record fields := by
  unfold attributesOf at h
  split at h
  · next found hfound =>
    cases h
    exact hfound
  · cases h

theorem isBlockOf_typedBlock (hkind : node.kind.isTyped = true)
    (hclean : ∀ text ∈ node.bareTexts, IsClean text) (h : typedBlock node = .ok t) :
    IsBlockOf node t := by
  rw [typedBlock] at h
  obtain ⟨⟨type, name⟩, hlabels, h⟩ := Outcome.bind_eq_ok.1 h
  obtain ⟨fields, hfields, h⟩ := Outcome.bind_eq_ok.1 h
  obtain ⟨body, hbody, h⟩ := Outcome.bind_eq_ok.1 h
  obtain ⟨dependencies, hdependencies, h⟩ := Outcome.bind_eq_ok.1 h
  cases h
  have hclean : ∀ text ∈ bodyTexts fields []
      ++ dependencyTexts ((Value.record fields).field "depends_on"), IsClean text := by
    rw [Node.bareTexts, config_of_attributesOf hfields] at hclean
    cases hkey : node.kind <;> simp only [hkey] at hclean hkind
    · exact hclean
    · exact hclean
    · cases hkind
    · cases hkind
    · cases hkind
  rw [List.forall_mem_append] at hclean
  obtain ⟨htype, hname⟩ := eq_of_typeAndNameOf hlabels
  refine ⟨[type, name], by simp [labels?, htype, hname, hkind], ?_⟩
  rw [headingOf_two]
  apply isBlock_blockOf
  intro n
  exact (leads_bodyLines hclean.1 hbody n).append (leads_dependencyLines hclean.2 hdependencies n)

/-- A module without a source is taken from a directory, whose path is no reference. -/
theorem wholes_origin {given : Value} (hclean : ∀ text ∈ wholes given, IsClean text)
    (name : String) :
    ∀ text ∈ wholes (given.orElse (.text ("./modules/" ++ name))), IsClean text := by
  rw [Value.orElse]
  split
  · exact hclean
  · have hpath : Reference.whole? ("./modules/" ++ name) = none := by
      rw [Reference.whole?, String.toList_append]
      rfl
    rw [wholes, hpath]
    exact fun text htext => absurd htext List.not_mem_nil

theorem isBlockOf_moduleBlock (hkind : node.kind = .moduleCall)
    (hclean : ∀ text ∈ node.bareTexts, IsClean text) (h : moduleBlock node = .ok t) :
    IsBlockOf node t := by
  rw [moduleBlock] at h
  obtain ⟨name, hname, h⟩ := Outcome.bind_eq_ok.1 h
  obtain ⟨fields, hfields, h⟩ := Outcome.bind_eq_ok.1 h
  obtain ⟨origin, horigin, h⟩ := Outcome.bind_eq_ok.1 h
  obtain ⟨body, hbody, h⟩ := Outcome.bind_eq_ok.1 h
  obtain ⟨dependencies, hdependencies, h⟩ := Outcome.bind_eq_ok.1 h
  cases h
  rw [Node.bareTexts, config_of_attributesOf hfields, hkind] at hclean
  simp only [List.forall_mem_append] at hclean
  refine ⟨[name], by simp [labels?, name_eq_of_nameOf hname, hkind, Kind.isTyped], ?_⟩
  rw [headingOf_one, hkind]
  apply isBlock_blockOf
  intro n
  have hsource := leads_literal n _ (wholes_origin hclean.1.1 name) horigin
  exact .cons (leads_line (by decide) hsource)
    ((leads_bodyLines hclean.1.2 hbody n).append (leads_dependencyLines hclean.2 hdependencies n))

theorem isBlockOf_variableBlock (hkind : node.kind = .inputVariable)
    (hclean : ∀ text ∈ node.bareTexts, IsClean text) (h : variableBlock node = .ok t) :
    IsBlockOf node t := by
  rw [variableBlock] at h
  obtain ⟨name, hname, h⟩ := Outcome.bind_eq_ok.1 h
  obtain ⟨fields, hfields, h⟩ := Outcome.bind_eq_ok.1 h
  obtain ⟨type, htype, h⟩ := Outcome.bind_eq_ok.1 h
  obtain ⟨default, hdefault, h⟩ := Outcome.bind_eq_ok.1 h
  obtain ⟨validations, hvalidations, h⟩ := Outcome.bind_eq_ok.1 h
  cases h
  rw [Node.bareTexts, config_of_attributesOf hfields, hkind] at hclean
  simp only [List.forall_mem_append] at hclean
  refine ⟨[name], by simp [labels?, name_eq_of_nameOf hname, hkind, Kind.isTyped], ?_⟩
  rw [headingOf_one, hkind]
  apply isBlock_blockOf
  intro n
  have hdescription := leads_descriptionLines (.record fields) n
  have htype := hdescription.append (leads_typeLines hclean.1.1 htype n)
  have hdefault := htype.append (leads_defaultLines hclean.1.2 hdefault n)
  have hsensitive := hdefault.append
    (leads_flagLines (.record fields) (show IsClean "sensitive" by decide) n)
  have hnullable := hsensitive.append
    (leads_flagLines (.record fields) (show IsClean "nullable" by decide) n)
  exact hnullable.append (leads_allValidationLines hclean.2 hvalidations n)

theorem isBlockOf_outputBlock (hkind : node.kind = .outputValue)
    (hclean : ∀ text ∈ node.bareTexts, IsClean text) (h : outputBlock node = .ok t) :
    IsBlockOf node t := by
  rw [outputBlock] at h
  obtain ⟨name, hname, h⟩ := Outcome.bind_eq_ok.1 h
  obtain ⟨fields, hfields, h⟩ := Outcome.bind_eq_ok.1 h
  obtain ⟨value, hvalue, h⟩ := Outcome.bind_eq_ok.1 h
  obtain ⟨dependencies, hdependencies, h⟩ := Outcome.bind_eq_ok.1 h
  cases h
  rw [Node.bareTexts, config_of_attributesOf hfields, hkind] at hclean
  simp only [List.forall_mem_append] at hclean
  refine ⟨[name], by simp [labels?, name_eq_of_nameOf hname, hkind, Kind.isTyped], ?_⟩
  rw [headingOf_one, hkind]
  apply isBlock_blockOf
  intro n
  have hfirst := LeadsLines.single
    (leads_line (show IsClean "value" by decide) (leads_literal n _ hclean.1 hvalue))
  have hdescription := hfirst.append (leads_descriptionLines (.record fields) n)
  have hsensitive := hdescription.append (leads_sensitivityLines (.record fields) n)
  exact hsensitive.append (leads_dependencyLines hclean.2 hdependencies n)

end Block

open Block in
/-- The block of a node has the keyword of its kind and its labels in the heading, and a body that
neither leaves the block nor swallows what follows. -/
theorem Node.isBlockOf_blockText {node : Node} {t : String}
    (hclean : ∀ text ∈ node.bareTexts, IsClean text) (h : node.blockText = .ok t) :
    IsBlockOf node t := by
  unfold Node.blockText at h
  split at h
  · next hkind => exact isBlockOf_typedBlock (by rw [hkind]; rfl) hclean h
  · next hkind => exact isBlockOf_typedBlock (by rw [hkind]; rfl) hclean h
  · next hkind => exact isBlockOf_moduleBlock hkind hclean h
  · next hkind => exact isBlockOf_variableBlock hkind hclean h
  · next hkind => exact isBlockOf_outputBlock hkind hclean h

end BlockDiagram
