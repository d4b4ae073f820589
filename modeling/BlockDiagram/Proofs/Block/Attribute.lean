import BlockDiagram.Block.Attribute
import BlockDiagram.Outcome
import BlockDiagram.Proofs.Block.Leads

/-!
# Attributes lead from any depth back to it

Almost everything that stands in an attribute is in quotes or clean by itself. What is not are the
texts collected here: the expressions of whole references, iterators, and the keys of dynamic
content. If they are clean, an attribute can neither leave its block nor swallow the next one.

* `leads_literal`: a literal, however deep its lists and objects go.
* `leads_attributeText`, `leads_attributeLines`: attributes, nested and dynamic blocks.
-/

namespace BlockDiagram.Block

/-! ## Literals -/

mutual

/-- The expressions that a literal writes without quotes. -/
def wholes : Value → List String
  | .text s => (Reference.whole? s).toList
  | .list items => itemWholes items
  | .record fields => fieldWholes fields
  | _ => []

def itemWholes : List Value → List String
  | [] => []
  | item :: rest => wholes item ++ itemWholes rest

def fieldWholes : List (String × Value) → List String
  | [] => []
  | (_, value) :: rest => wholes value ++ fieldWholes rest

end

theorem leads_indent (level : Int) (n : Nat) : LeadsString n n (indent level) :=
  leads_clean (isClean_indent level) n

theorem leads_indented {s : String} (h : IsClean s) (level : Int) (n : Nat) :
    LeadsString n n (indent level ++ s) :=
  (leads_indent level n).append (leads_clean h n)

theorem leads_objectKey (key : String) (n : Nat) : LeadsString n n (objectKey key) := by
  rw [objectKey]
  split
  · next h => exact leads_clean (isClean_of_isBareKey h) n
  · exact leads_quote key n

theorem leads_textLiteral {s : String} (h : ∀ expression ∈ Reference.whole? s, IsClean expression)
    (n : Nat) : LeadsString n n (textLiteral s) := by
  rw [textLiteral]
  split
  · next expression found => exact leads_clean (h expression found) n
  · exact leads_quote s n

mutual

theorem leads_literal (n : Nat) {limit : Nat} {level : Int} {t : String} :
    ∀ value : Value, (∀ expression ∈ wholes value, IsClean expression) →
      literal limit value level = .ok t → LeadsString n n t
  | .null, _, h => by
    cases h
    exact leads_clean (by decide) n
  | .bool b, _, h => by
    cases h
    cases b <;> exact leads_clean (by decide) n
  | .int i, _, h => by
    rw [literal, digits] at h
    split at h
    · cases h
    · cases h
      exact leads_clean (isClean_intRepr i) n
  | .float x, _, h => by
    rw [literal] at h
    split at h
    · cases h
      exact leads_clean (isClean_toText x) n
    · cases h
  | .text s, hclean, h => by
    cases h
    refine leads_textLiteral ?_ n
    intro expression found
    exact hclean expression (Option.mem_toList.2 found)
  | .list [], _, h => by
    cases h
    exact leads_clean (by decide) n
  | .list (first :: rest), hclean, h => by
    rw [literal] at h
    obtain ⟨items, hitems, h⟩ := Outcome.bind_eq_ok.1 h
    cases h
    have hbody := leads_literalItems n (first :: rest) hclean hitems
    have hopened := (leads_clean (show IsClean "[\n" by decide) n).append hbody
    exact (hopened.append (leads_indent level n)).append (leads_clean (by decide) n)
  | .record [], _, h => by
    cases h
    exact .opening (.closing .nil)
  | .record (first :: rest), hclean, h => by
    rw [literal] at h
    obtain ⟨fields, hfields, h⟩ := Outcome.bind_eq_ok.1 h
    cases h
    have hbody := leads_literalFields (n + 1) (first :: rest) hclean hfields
    have hbrace : LeadsString n (n + 1) "\x7b\n" := .opening (.inert (by decide) .nil)
    have hclosing := leads_closed (isClean_indent level) n
    rw [LeadsString, String.append_assoc]
    exact (hbrace.append hbody).append hclosing

theorem leads_literalItems (n : Nat) {limit : Nat} {level : Int} {t : String} :
    ∀ items : List Value, (∀ expression ∈ itemWholes items, IsClean expression) →
      literalItems limit items level = .ok t → LeadsString n n t
  | [], _, h => by
    cases h
    exact .nil
  | item :: rest, hclean, h => by
    rw [itemWholes, List.forall_mem_append] at hclean
    rw [literalItems] at h
    obtain ⟨first, hfirst, h⟩ := Outcome.bind_eq_ok.1 h
    obtain ⟨others, hothers, h⟩ := Outcome.bind_eq_ok.1 h
    cases h
    have hline := (leads_indent level n).append (leads_literal n item hclean.1 hfirst)
    have hend := hline.append (leads_clean (show IsClean ",\n" by decide) n)
    exact hend.append (leads_literalItems n rest hclean.2 hothers)

theorem leads_literalFields (n : Nat) {limit : Nat} {level : Int} {t : String} :
    ∀ fields : List (String × Value), (∀ expression ∈ fieldWholes fields, IsClean expression) →
      literalFields limit fields level = .ok t → LeadsString n n t
  | [], _, h => by
    cases h
    exact .nil
  | (key, value) :: rest, hclean, h => by
    rw [fieldWholes, List.forall_mem_append] at hclean
    rw [literalFields] at h
    obtain ⟨first, hfirst, h⟩ := Outcome.bind_eq_ok.1 h
    obtain ⟨others, hothers, h⟩ := Outcome.bind_eq_ok.1 h
    cases h
    have hkey := (leads_indent level n).append (leads_objectKey key n)
    have hsign := hkey.append (leads_clean (show IsClean " = " by decide) n)
    have hvalue := hsign.append (leads_literal n value hclean.1 hfirst)
    have hend := hvalue.append (leads_clean (show IsClean "\n" by decide) n)
    exact hend.append (leads_literalFields n rest hclean.2 hothers)

end

/-! ## Dynamic blocks around their content -/

/-- What the lines before the content of a dynamic block write without quotes. -/
def headTexts (fields : List (String × Value)) : List String :=
  let given := Value.record fields
  wholes (given.field "for_each") ++
    match given.field "iterator" with
    | .text s => [Reference.wholeOr s s]
    | _ => []

theorem leads_iteratorLines {given : Value} {level : Int} {lines : List String}
    (hclean : ∀ s, given = .text s → IsClean (Reference.wholeOr s s))
    (h : iteratorLines given level = .ok lines) (n : Nat) : LeadsLines n n lines := by
  unfold iteratorLines at h
  split at h
  · cases given with
    | text s =>
      cases h
      have hname := leads_clean (hclean s rfl) n
      have hkey := leads_indented (show IsClean "iterator = " by decide) level n
      exact .single (hkey.append hname)
    | _ => cases h
  · cases h
    exact .nil

theorem leads_labelLines (given : Value) (level : Int) (n : Nat) :
    LeadsLines n n (labelLines given level) := by
  unfold labelLines
  split
  · next first rest =>
    have hlabels : LeadsLines n n ((first :: rest).map fun label => quote label.shown) := by
      apply leadsLines_of_forall
      intro line hline
      obtain ⟨label, -, rfl⟩ := List.mem_map.1 hline
      exact leads_quote label.shown n
    have hjoined := hlabels.join (show IsClean ", " by decide)
    have hkey := leads_indented (show IsClean "labels = [" by decide) level n
    exact .single ((hkey.append hjoined).append (leads_clean (by decide) n))
  · exact .nil

theorem leads_spacedOpening (n : Nat) : LeadsString n (n + 1) " \x7b" :=
  leads_opened (show IsClean " " by decide) n

theorem leads_headLines {blockType : String} {fields : List (String × Value)} {level : Int}
    {lines : List String} (hclean : ∀ text ∈ headTexts fields, IsClean text)
    (h : headLines blockType fields level = .ok lines) (n : Nat) : LeadsLines n (n + 1) lines := by
  rw [headTexts, List.forall_mem_append] at hclean
  rw [headLines] at h
  obtain ⟨collection, hcollection, h⟩ := Outcome.bind_eq_ok.1 h
  obtain ⟨iterator, hiterator, h⟩ := Outcome.bind_eq_ok.1 h
  cases h
  have hkeyword := leads_indented (show IsClean "dynamic " by decide) level n
  have hname := hkeyword.append (leads_quote blockType n)
  have hopening := hname.append (leads_spacedOpening n)
  have hkey := leads_indented (show IsClean "for_each = " by decide) (level + 1) (n + 1)
  have hfor := hkey.append (leads_literal (n + 1) _ hclean.1 hcollection)
  have hnamed : LeadsLines (n + 1) (n + 1) iterator := by
    refine leads_iteratorLines ?_ hiterator (n + 1)
    intro s hs
    apply hclean.2
    rw [hs]
    exact List.mem_singleton_self _
  exact ((LeadsLines.cons hopening (.single hfor)).append hnamed).append
    (leads_labelLines _ (level + 1) (n + 1))

theorem leads_dynamicLines {blockType : String} {fields : List (String × Value)} {level : Int}
    {content : Except Error (List String)} {lines : List String} {n : Nat}
    (hclean : ∀ text ∈ headTexts fields, IsClean text)
    (hcontent : ∀ inner, content = .ok inner → LeadsLines (n + 1) (n + 1) inner)
    (h : dynamicLines blockType fields content level = .ok lines) : LeadsLines n n lines := by
  rw [dynamicLines] at h
  obtain ⟨head, hhead, h⟩ := Outcome.bind_eq_ok.1 h
  obtain ⟨inner, hinner, h⟩ := Outcome.bind_eq_ok.1 h
  cases h
  have hopened := (leads_headLines hclean hhead n).append (hcontent inner hinner)
  exact hopened.append (.single (leads_closed (isClean_indent level) n))

/-! ## Attributes -/

/-- The keys of attributes that stand without quotes; that of a descriptor is quoted. -/
def keyTexts (fields : List (String × Value)) : List String :=
  (fields.filter fun field =>
    match field.2 with
    | .record inner => !isDescriptor inner
    | _ => true).map Prod.fst

mutual

/-- What an attribute writes without quotes, its own key apart. The keys in a nested block are
identifiers, so that only those of dynamic content count. -/
def bareTexts (key : String) : Value → List String
  | .record fields =>
    if isDescriptor fields then headTexts fields ++ contentTexts fields
    else if key = "dynamic" then entryTexts fields
    else if fields.all fun field => isBareKey field.1 then fieldTexts fields
    else wholes (.record fields)
  | .list items => if key = "dynamic" then itemTexts items else wholes (.list items)
  | value => wholes value

/-- The same of several attributes. -/
def fieldTexts : List (String × Value) → List String
  | [] => []
  | (key, value) :: rest => bareTexts key value ++ fieldTexts rest

/-- The same of a dynamic block's content, its keys included. -/
def contentTexts : List (String × Value) → List String
  | [] => []
  | (key, .record fields) :: rest =>
    if key = "content" then keyTexts fields ++ fieldTexts fields else contentTexts rest
  | (key, _) :: rest => if key = "content" then [] else contentTexts rest

/-- The same of dynamic blocks whose descriptors stand under their block types. -/
def entryTexts : List (String × Value) → List String
  | [] => []
  | (_, .record fields) :: rest => headTexts fields ++ contentTexts fields ++ entryTexts rest
  | _ :: rest => entryTexts rest

/-- The same of dynamic blocks whose descriptors stand in a list. -/
def itemTexts : List Value → List String
  | [] => []
  | .record fields :: rest =>
    (if isDescriptor fields then headTexts fields ++ contentTexts fields else entryTexts fields)
      ++ itemTexts rest
  | _ :: rest => itemTexts rest

end

/-- A key, an equals sign and a literal. -/
theorem leads_assignment {key : String} (hkey : IsClean key) {value : Value}
    (hclean : ∀ expression ∈ wholes value, IsClean expression) {level : Int} {t : String}
    (h : (do return indent level ++ key ++ " = " ++ (← literalLine value level)) = Except.ok t)
    (n : Nat) : LeadsString n n t := by
  obtain ⟨s, hs, h⟩ := Outcome.bind_eq_ok.1 h
  cases h
  have hname := leads_indented hkey level n
  have hsign := hname.append (leads_clean (show IsClean " = " by decide) n)
  exact hsign.append (leads_literal n _ hclean hs)

theorem isClean_of_mem_keyTexts {fields : List (String × Value)}
    (h : ∀ field ∈ fields, isBareKey field.1 = true) : ∀ key ∈ keyTexts fields, IsClean key := by
  intro key hkey
  obtain ⟨field, hfield, rfl⟩ := List.mem_map.1 hkey
  exact isClean_of_isBareKey (h field (List.mem_filter.1 hfield).1)

mutual

theorem leads_attributeText (n : Nat) {key : String} {level : Int} {t : String} :
    ∀ value : Value, (∀ k ∈ keyTexts [(key, value)], IsClean k) →
      (∀ text ∈ bareTexts key value, IsClean text) →
      attributeText key value level = .ok t → LeadsString n n t
  | .record fields, hkey, hclean, h => by
    rw [bareTexts] at hclean
    rw [attributeText] at h
    by_cases hdescriptor : isDescriptor fields
    · rw [if_pos hdescriptor, List.forall_mem_append] at hclean
      rw [if_pos hdescriptor] at h
      obtain ⟨lines, hlines, h⟩ := Outcome.bind_eq_ok.1 h
      cases h
      have hlines := leads_dynamicLines hclean.1
        (fun _ hinner => leads_contentLines (n + 1) fields hclean.2 hinner) hlines
      exact hlines.join (by decide)
    rw [if_neg hdescriptor] at hclean h
    by_cases hdynamic : key = "dynamic"
    · rw [if_pos hdynamic] at hclean h
      obtain ⟨lines, hlines, h⟩ := Outcome.bind_eq_ok.1 h
      cases h
      exact (leads_descriptorEntries n fields hclean hlines).join (by decide)
    rw [if_neg hdynamic] at hclean h
    have hkey : IsClean key := hkey key (by simp [keyTexts, hdescriptor])
    split at h
    · next hbare =>
      rw [if_pos hbare] at hclean
      have hname := leads_indented hkey level n
      split at h
      · cases h
        have hbraces : LeadsString n n " \x7b\x7d" :=
          (leads_spacedOpening n).append (leads_closing n)
        exact hname.append hbraces
      · obtain ⟨body, hbody, h⟩ := Outcome.bind_eq_ok.1 h
        cases h
        have hkeys := isClean_of_mem_keyTexts (List.all_eq_true.1 hbare)
        have hinner := leads_attributeLines (n + 1) fields hkeys hclean hbody
        have hopening := LeadsLines.single (hname.append (leads_spacedOpening n))
        have hclosing := LeadsLines.single (leads_closed (isClean_indent level) n)
        exact ((hopening.append hinner).append hclosing).join (by decide)
    · next hbare =>
      rw [if_neg hbare] at hclean
      exact leads_assignment hkey hclean h n
  | .list items, hkey, hclean, h => by
    rw [bareTexts] at hclean
    rw [attributeText] at h
    split at h
    · next hdynamic =>
      rw [if_pos hdynamic] at hclean
      obtain ⟨lines, hlines, h⟩ := Outcome.bind_eq_ok.1 h
      cases h
      exact (leads_descriptorItems n items hclean hlines).join (by decide)
    · next hdynamic =>
      rw [if_neg hdynamic] at hclean
      exact leads_assignment (hkey key (by simp [keyTexts])) hclean h n
  | .null, hkey, hclean, h =>
    leads_assignment (hkey key (by simp [keyTexts])) hclean h n
  | .bool _, hkey, hclean, h =>
    leads_assignment (hkey key (by simp [keyTexts])) hclean h n
  | .int _, hkey, hclean, h =>
    leads_assignment (hkey key (by simp [keyTexts])) hclean h n
  | .float _, hkey, hclean, h =>
    leads_assignment (hkey key (by simp [keyTexts])) hclean h n
  | .text _, hkey, hclean, h =>
    leads_assignment (hkey key (by simp [keyTexts])) hclean h n

theorem leads_attributeLines (n : Nat) {level : Int} {lines : List String} :
    ∀ fields : List (String × Value), (∀ key ∈ keyTexts fields, IsClean key) →
      (∀ text ∈ fieldTexts fields, IsClean text) →
      attributeLines fields level = .ok lines → LeadsLines n n lines
  | [], _, _, h => by
    cases h
    exact .nil
  | (key, value) :: rest, hkeys, hclean, h => by
    have hkeys : ∀ k ∈ keyTexts [(key, value)] ++ keyTexts rest, IsClean k := by
      rw [keyTexts, keyTexts, ← List.map_append, ← List.filter_append]
      exact hkeys
    rw [List.forall_mem_append] at hkeys
    rw [fieldTexts, List.forall_mem_append] at hclean
    rw [attributeLines] at h
    obtain ⟨first, hfirst, h⟩ := Outcome.bind_eq_ok.1 h
    obtain ⟨others, hothers, h⟩ := Outcome.bind_eq_ok.1 h
    cases h
    exact .cons (leads_attributeText n value hkeys.1 hclean.1 hfirst)
      (leads_attributeLines n rest hkeys.2 hclean.2 hothers)

theorem leads_contentLines (n : Nat) {level : Int} {lines : List String} :
    ∀ fields : List (String × Value), (∀ text ∈ contentTexts fields, IsClean text) →
      contentLines fields level = .ok lines → LeadsLines n n lines
  | [], _, h => by
    cases h
    exact .nil
  | (key, value) :: rest, hclean, h => by
    cases value with
    | record fields =>
      rw [contentTexts] at hclean
      rw [contentLines] at h
      split at h
      · next hcontent =>
        rw [if_pos hcontent, List.forall_mem_append] at hclean
        split at h
        · cases h
          have hbraces : LeadsString n n "content \x7b\x7d" :=
            (leads_opened (show IsClean "content " by decide) n).append (leads_closing n)
          exact .single ((leads_indent level n).append hbraces)
        · obtain ⟨body, hbody, h⟩ := Outcome.bind_eq_ok.1 h
          cases h
          have hinner := leads_attributeLines (n + 1) fields hclean.1 hclean.2 hbody
          have hopening := (leads_indent level n).append
            (leads_opened (show IsClean "content " by decide) n)
          exact .cons hopening (hinner.append (.single (leads_closed (isClean_indent level) n)))
      · next hcontent =>
        rw [if_neg hcontent] at hclean
        exact leads_contentLines n rest hclean h
    | _ =>
      simp only [contentTexts] at hclean
      simp only [contentLines] at h
      split at h
      · cases h
        exact .nil
      · next hcontent =>
        rw [if_neg hcontent] at hclean
        exact leads_contentLines n rest hclean h

theorem leads_descriptorEntries (n : Nat) {level : Int} {lines : List String} :
    ∀ fields : List (String × Value), (∀ text ∈ entryTexts fields, IsClean text) →
      descriptorEntries fields level = .ok lines → LeadsLines n n lines
  | [], _, h => by
    cases h
    exact .nil
  | (blockType, value) :: rest, hclean, h => by
    cases value with
    | record fields =>
      rw [entryTexts, List.forall_mem_append, List.forall_mem_append] at hclean
      rw [descriptorEntries] at h
      split at h
      · obtain ⟨first, hfirst, h⟩ := Outcome.bind_eq_ok.1 h
        obtain ⟨others, hothers, h⟩ := Outcome.bind_eq_ok.1 h
        cases h
        have hfirst := leads_dynamicLines hclean.1.1
          (fun _ hinner => leads_contentLines (n + 1) fields hclean.1.2 hinner) hfirst
        exact hfirst.append (leads_descriptorEntries n rest hclean.2 hothers)
      · cases h
    | _ => cases h

theorem leads_descriptorItems (n : Nat) {level : Int} {lines : List String} :
    ∀ items : List Value, (∀ text ∈ itemTexts items, IsClean text) →
      descriptorItems items level = .ok lines → LeadsLines n n lines
  | [], _, h => by
    cases h
    exact .nil
  | item :: rest, hclean, h => by
    cases item with
    | record fields =>
      rw [itemTexts, List.forall_mem_append] at hclean
      rw [descriptorItems] at h
      split at h
      · next hdescriptor =>
        rw [if_pos hdescriptor, List.forall_mem_append] at hclean
        obtain ⟨first, hfirst, h⟩ := Outcome.bind_eq_ok.1 h
        obtain ⟨others, hothers, h⟩ := Outcome.bind_eq_ok.1 h
        cases h
        have hfirst := leads_dynamicLines hclean.1.1
          (fun _ hinner => leads_contentLines (n + 1) fields hclean.1.2 hinner) hfirst
        exact hfirst.append (leads_descriptorItems n rest hclean.2 hothers)
      · next hdescriptor =>
        rw [if_neg hdescriptor] at hclean
        obtain ⟨first, hfirst, h⟩ := Outcome.bind_eq_ok.1 h
        obtain ⟨others, hothers, h⟩ := Outcome.bind_eq_ok.1 h
        cases h
        have hfirst := leads_descriptorEntries n fields hclean.1 hfirst
        exact hfirst.append (leads_descriptorItems n rest hclean.2 hothers)
    | _ => cases h

end

end BlockDiagram.Block
