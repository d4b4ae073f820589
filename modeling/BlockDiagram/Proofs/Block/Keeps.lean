import BlockDiagram.Proofs.Block.Leaves
import BlockDiagram.Proofs.Configuration.Nodes
import BlockDiagram.Proofs.Store

/-!
# Leaves of attributes stand in the block

Leaves stand in a text if it has a place for each of them, one behind the other in some order. What
is written of an attribute has a place for every leaf that is not ignored.

* `Keeps`: leaves stand in a text; `Keeps.exists_infix`: so each one is a part of it.
* `perm_heeded_descriptorLeaves`: a descriptor is read key by key.
* `keeps_attributeText`: attributes, nested and dynamic blocks.
-/

namespace BlockDiagram

namespace Table

variable {α β : Type}

theorem perm_cons_erase {t : Table α} (hkeys : t.keys.Nodup) {key : String} {value : α}
    (h : t.get? key = some value) : t.Perm ((key, value) :: t.erase key) := by
  induction t with
  | nil => cases h
  | cons entry rest ih =>
    obtain ⟨k, v⟩ := entry
    obtain ⟨hnew, hrest⟩ := List.nodup_cons.1 hkeys
    rw [get?_cons] at h
    split at h
    · next hsame =>
      subst hsame
      cases h
      have hkept : erase ((k, value) :: rest) k = erase rest k :=
        List.filter_cons_of_neg (by simp)
      rw [hkept, erase_of_get?_eq_none (get?_eq_none_iff.2 hnew)]
    · next hdiffers =>
      have hkept : erase ((k, v) :: rest) key = (k, v) :: erase rest key :=
        List.filter_cons_of_pos (by simpa using hdiffers)
      rw [hkept]
      exact ((ih hrest h).cons (k, v)).trans (.swap ..)

/-- What is read off the entries of a table key by key is read off all of them, if the other entries
give nothing. -/
theorem perm_flatMap {t : Table α} (hkeys : t.keys.Nodup) {f : String × α → List β}
    {keys : List String} (hnodup : keys.Nodup)
    (hother : ∀ entry ∈ t, entry.1 ∉ keys → f entry = []) :
    (keys.flatMap fun key => (t.get? key).elim [] fun value => f (key, value)).Perm
      (t.flatMap f) := by
  induction keys generalizing t with
  | nil =>
    have hnil : t.flatMap f = [] :=
      List.flatMap_eq_nil_iff.2 fun entry hentry => hother entry hentry List.not_mem_nil
    rw [hnil]
    rfl
  | cons key rest ih =>
    obtain ⟨hnew, hrest⟩ := List.nodup_cons.1 hnodup
    -- Without the entry under the key, the other keys find what they found before.
    have herased := ih (nodup_keys_erase hkeys key) hrest fun entry hentry hmem => by
      obtain ⟨hentry, hne⟩ := List.mem_filter.1 hentry
      refine hother entry hentry fun hkeys => ?_
      rcases List.mem_cons.1 hkeys with hsame | hkeys
      · exact bne_iff_ne.1 hne hsame
      · exact hmem hkeys
    have hfound : (rest.flatMap fun other => (get? (t.erase key) other).elim [] fun value =>
        f (other, value)) = rest.flatMap fun other => (t.get? other).elim [] fun value =>
        f (other, value) := by
      refine List.flatMap_congr fun other hmem => ?_
      have hne : other ≠ key := by
        rintro rfl
        exact hnew hmem
      rw [get?_erase_of_ne t hne]
    rw [hfound] at herased
    rw [List.flatMap_cons]
    cases hget : t.get? key with
    | none =>
      rw [erase_of_get?_eq_none hget] at herased
      exact herased
    | some value =>
      exact (herased.append_left _).trans ((perm_cons_erase hkeys hget).flatMap_right f).symm

end Table

namespace Block

/-! ## Leaves in a text -/

/-- Leaves stand in a text, each in a place of its own. -/
inductive Keeps : List Leaf → String → Prop
  | none (s : String) : Keeps [] s
  | leaf {leaf : Leaf} {s : String} : leaf.IsWritten s → Keeps [leaf] s
  | append {leaves others : List Leaf} {s t : String} :
    Keeps leaves s → Keeps others t → Keeps (leaves ++ others) (s ++ t)
  | perm {leaves others : List Leaf} {s : String} :
    leaves.Perm others → Keeps leaves s → Keeps others s

namespace Keeps

variable {leaves others : List Leaf} {s : String}

theorem after (h : Keeps leaves s) (before : String) : Keeps leaves (before ++ s) :=
  (Keeps.none before).append h

theorem before (h : Keeps leaves s) (after : String) : Keeps leaves (s ++ after) := by
  have happend := h.append (.none after)
  rwa [List.append_nil] at happend

/-- A leaf that stands in a text is a part of it. -/
theorem exists_infix (h : Keeps leaves s) {leaf : Leaf} (hleaf : leaf ∈ leaves) :
    ∃ t, leaf.IsWritten t ∧ t.toList <:+: s.toList := by
  induction h with
  | none => cases hleaf
  | @leaf other t hwritten =>
    rw [List.mem_singleton.1 hleaf]
    exact ⟨t, hwritten, List.infix_rfl⟩
  | append _ _ ihs iht =>
    rw [String.toList_append]
    rcases List.mem_append.1 hleaf with hleaf | hleaf
    · obtain ⟨t, hwritten, ht⟩ := ihs hleaf
      exact ⟨t, hwritten, ht.trans (List.prefix_append _ _).isInfix⟩
    · obtain ⟨t, hwritten, ht⟩ := iht hleaf
      exact ⟨t, hwritten, ht.trans (List.suffix_append _ _).isInfix⟩
  | perm hperm _ ih => exact ih (hperm.mem_iff.2 hleaf)

end Keeps

/-- Lines after lines are joined with the separator between them, if there are any. -/
theorem exists_join_append (separator : String) (lines others : List String) : ∃ middle,
    Text.join separator (lines ++ others)
      = Text.join separator lines ++ middle ++ Text.join separator others := by
  induction lines with
  | nil => exact ⟨"", by simp [Text.join]⟩
  | cons line rest ih =>
    by_cases hrest : rest = []
    · subst hrest
      by_cases hothers : others = []
      · exact ⟨"", by simp [hothers, Text.join]⟩
      · exact ⟨separator, by rw [List.cons_append, List.nil_append, Text.join_cons hothers]; rfl⟩
    · obtain ⟨middle, hmiddle⟩ := ih
      refine ⟨middle, ?_⟩
      rw [List.cons_append, Text.join_cons (by simp [hrest]), Text.join_cons hrest, hmiddle]
      simp only [String.append_assoc]

/-- Leaves stand in lines, however these are joined. -/
def KeepsLines (leaves : List Leaf) (lines : List String) : Prop :=
  ∀ separator, Keeps leaves (Text.join separator lines)

namespace KeepsLines

variable {leaves others : List Leaf} {line : String} {lines moreLines : List String}

theorem none (lines : List String) : KeepsLines [] lines := fun _ => .none _

theorem single (h : Keeps leaves line) : KeepsLines leaves [line] := fun _ => h

theorem append (h : KeepsLines leaves lines) (hothers : KeepsLines others moreLines) :
    KeepsLines (leaves ++ others) (lines ++ moreLines) := by
  intro separator
  obtain ⟨middle, hjoin⟩ := exists_join_append separator lines moreLines
  rw [hjoin]
  exact ((h separator).before middle).append (hothers separator)

/-- Lines without leaves in front of others. -/
theorem after (h : KeepsLines leaves lines) (before : List String) :
    KeepsLines leaves (before ++ lines) :=
  (KeepsLines.none before).append h

theorem before (h : KeepsLines leaves lines) (after : List String) :
    KeepsLines leaves (lines ++ after) := by
  have happend := h.append (.none after)
  rwa [List.append_nil] at happend

theorem perm (hperm : leaves.Perm others) (h : KeepsLines leaves lines) :
    KeepsLines others lines := fun separator => .perm hperm (h separator)

end KeepsLines

/-! ## Literals -/

theorem leavesIn_append (form : Form) (values others : List Value) :
    leavesIn form (values ++ others) = leavesIn form values ++ leavesIn form others :=
  List.map_append

mutual

theorem keeps_literal {level : Int} {t : String} : ∀ value : Value,
    literal 0 value level = .ok t → Keeps (leavesIn .literal value.leaves) t
  | .null, _ => .none t
  | .bool b, h => .leaf (.literal h)
  | .int n, h => .leaf (.literal h)
  | .float x, h => by
    refine .leaf (.literal ?_)
    rw [literal] at h ⊢
    exact h
  | .text s, h => .leaf (.literal h)
  | .list [], _ => .none t
  | .list (first :: rest), h => by
    rw [literal] at h
    obtain ⟨items, hitems, h⟩ := Outcome.bind_eq_ok.1 h
    cases h
    exact (((keeps_literalItems (first :: rest) hitems).after "[\n").before _).before _
  | .record [], _ => .none t
  | .record (first :: rest), h => by
    rw [literal] at h
    obtain ⟨fields, hfields, h⟩ := Outcome.bind_eq_ok.1 h
    cases h
    exact (((keeps_literalFields (first :: rest) hfields).after "\x7b\n").before _).before _

theorem keeps_literalItems {level : Int} {t : String} : ∀ items : List Value,
    literalItems 0 items level = .ok t → Keeps (leavesIn .literal (Value.itemLeaves items)) t
  | [], _ => .none t
  | item :: rest, h => by
    rw [literalItems] at h
    obtain ⟨first, hfirst, h⟩ := Outcome.bind_eq_ok.1 h
    obtain ⟨others, hothers, h⟩ := Outcome.bind_eq_ok.1 h
    cases h
    rw [Value.itemLeaves, leavesIn_append]
    have hline := ((keeps_literal item hfirst).after (indent level)).before ",\n"
    exact hline.append (keeps_literalItems rest hothers)

theorem keeps_literalFields {level : Int} {t : String} : ∀ fields : List (String × Value),
    literalFields 0 fields level = .ok t → Keeps (leavesIn .literal (Value.fieldLeaves fields)) t
  | [], _ => .none t
  | (key, value) :: rest, h => by
    rw [literalFields] at h
    obtain ⟨first, hfirst, h⟩ := Outcome.bind_eq_ok.1 h
    obtain ⟨others, hothers, h⟩ := Outcome.bind_eq_ok.1 h
    cases h
    rw [Value.fieldLeaves, leavesIn_append]
    have hline := ((keeps_literal value hfirst).after
      (indent level ++ objectKey key ++ " = ")).before "\n"
    exact hline.append (keeps_literalFields rest hothers)

end

/-! ## Texts in quotes -/

theorem inQuotes_append (s t : String) : inQuotes (s ++ t) = inQuotes s ++ inQuotes t := by
  rw [inQuotes, String.toList_append, escaped, List.flatMap_append, String.ofList_append]
  rfl

theorem quote_eq (s : String) : quote s = "\"" ++ inQuotes s ++ "\"" := by
  rw [← String.toList_inj, toList_quote]
  simp only [String.toList_append, inQuotes, String.toList_ofList, List.append_assoc]
  rfl

mutual

theorem keeps_quoted : ∀ value : Value,
    Keeps (leavesIn .shown value.leaves) (inQuotes value.quoted)
  | .null => .none _
  | .bool b => .leaf (.shown (.bool b))
  | .int n => .leaf (.shown (.int n))
  | .float x => .leaf (.shown (.float x))
  | .text s => .leaf (.shown (.text s))
  | .list items => by
    rw [Value.quoted, inQuotes_append, inQuotes_append]
    exact ((keeps_quotedItems items).after _).before _
  | .record fields => by
    rw [Value.quoted, inQuotes_append, inQuotes_append]
    exact ((keeps_quotedFields fields).after _).before _

theorem keeps_quotedItems : ∀ items : List Value,
    Keeps (leavesIn .shown (Value.itemLeaves items))
      (inQuotes (Text.join ", " (Value.quotedItems items)))
  | [] => .none _
  | item :: rest => by
    have hitem := keeps_quoted item
    have hrest := keeps_quotedItems rest
    obtain ⟨middle, hjoin⟩ := exists_join_append ", " [item.quoted] (Value.quotedItems rest)
    rw [Value.itemLeaves, leavesIn_append, Value.quotedItems, ← List.singleton_append, hjoin,
      inQuotes_append, inQuotes_append]
    exact (hitem.before _).append hrest

theorem keeps_quotedFields : ∀ fields : List (String × Value),
    Keeps (leavesIn .shown (Value.fieldLeaves fields))
      (inQuotes (Text.join ", " (Value.quotedFields fields)))
  | [] => .none _
  | (key, value) :: rest => by
    have hvalue := (keeps_quoted value).after (inQuotes (Text.quoted key ++ ": "))
    have hrest := keeps_quotedFields rest
    obtain ⟨middle, hjoin⟩ := exists_join_append ", " [Text.quoted key ++ ": " ++ value.quoted]
      (Value.quotedFields rest)
    rw [Value.fieldLeaves, leavesIn_append, Value.quotedFields, ← List.singleton_append, hjoin,
      inQuotes_append, inQuotes_append]
    rw [← inQuotes_append] at hvalue
    exact (hvalue.before _).append hrest

end

theorem keeps_shown (value : Value) : Keeps (shownLeaves value) (quote value.shown) := by
  cases value with
  | null => exact .none _
  | list items =>
    rw [quote_eq]
    exact ((keeps_quoted (.list items)).after _).before _
  | record fields =>
    rw [quote_eq]
    exact ((keeps_quoted (.record fields)).after _).before _
  | bool b => exact .leaf (.quoted (.bool b))
  | int n => exact .leaf (.quoted (.int n))
  | float x => exact .leaf (.quoted (.float x))
  | text s => exact .leaf (.quoted (.text s))

/-! ## Descriptors -/

theorem keeps_iteratorLines {given : Value} {level : Int} {lines : List String}
    (htruthy : given.isTruthy = true) (h : iteratorLines given level = .ok lines) :
    KeepsLines (leavesIn .bare given.leaves) lines := by
  unfold iteratorLines at h
  rw [if_pos htruthy] at h
  cases given with
  | text s =>
    cases h
    exact .single ((Keeps.leaf (.bare s)).after _)
  | _ => cases h

theorem keeps_labelLines (given : Value) (level : Int) :
    KeepsLines (heeded (labelLeaves given)) (labelLines given level) := by
  cases given with
  | list labels =>
    rw [heeded_labelLeaves, labelLeaves]
    cases labels with
    | nil => exact .none _
    | cons first rest =>
      have hlabels : ∀ labels : List Value, KeepsLines (labels.flatMap shownLeaves)
          (labels.map fun label => quote label.shown) := by
        intro labels
        induction labels with
        | nil => exact .none _
        | cons label rest ih => exact (KeepsLines.single (keeps_shown label)).append ih
      exact .single (((hlabels (first :: rest) ", ").after _).before "]")
  | _ =>
    simp only [labelLeaves, heeded_ignored]
    exact .none _

/-- The leaves of an entry of a descriptor, its content included. -/
def entryForms (isNamed : Bool) (entry : String × Value) : List Leaf :=
  match entry with
  | (key, .record fields) =>
    if key = "content" then fieldLeaves fields else headLeaves isNamed key (.record fields)
  | (key, value) => headLeaves isNamed key value

theorem descriptorLeaves_eq_flatMap (isNamed : Bool) (fields : List (String × Value)) :
    descriptorLeaves isNamed fields = fields.flatMap (entryForms isNamed) := by
  induction fields with
  | nil => rfl
  | cons entry rest ih =>
    obtain ⟨key, value⟩ := entry
    rw [List.flatMap_cons, ← ih]
    cases value <;> rfl

/-- What stands somewhere of the entry of a descriptor under a key. -/
def part (isNamed : Bool) (fields : List (String × Value)) (key : String) : List Leaf :=
  (Table.get? fields key).elim [] fun value => heeded (entryForms isNamed (key, value))

/-- The keys of a descriptor that are read, in the order in which they are written. -/
def descriptorKeys : List String := ["type", "for_each", "iterator", "labels", "content"]

theorem heeded_entryForms_of_not_mem {isNamed : Bool} {entry : String × Value}
    (h : entry.1 ∉ descriptorKeys) : heeded (entryForms isNamed entry) = [] := by
  obtain ⟨key, value⟩ := entry
  simp only [descriptorKeys, List.mem_cons, List.not_mem_nil, or_false, not_or] at h
  obtain ⟨htype, hfor, hiterator, hlabels, hcontent⟩ := h
  have hhead : heeded (headLeaves isNamed key value) = [] := by
    rw [headLeaves, if_neg hfor, if_neg fun h => htype h.1, if_neg fun h => hiterator h.1,
      if_neg hlabels, heeded_ignored]
  cases value with
  | record fields => rw [entryForms, if_neg hcontent, hhead]
  | _ => exact hhead

/-- A descriptor has each of its keys once, so what stands somewhere of it are the entries under the
keys that are read. -/
theorem perm_heeded_descriptorLeaves (isNamed : Bool) {fields : List (String × Value)}
    (hkeys : (Table.keys fields).Nodup) :
    (descriptorKeys.flatMap (part isNamed fields)).Perm
      (heeded (descriptorLeaves isNamed fields)) := by
  rw [descriptorLeaves_eq_flatMap, heeded, List.filter_flatMap]
  exact Table.perm_flatMap hkeys (by decide) fun entry _ hother =>
    heeded_entryForms_of_not_mem hother

theorem headLeaves_type (isNamed : Bool) (value : Value) : headLeaves isNamed "type" value
    = if isNamed = false ∧ value.isTruthy = true then shownLeaves value
      else leavesIn .ignored value.leaves := by
  simp [headLeaves]

theorem headLeaves_iterator (isNamed : Bool) (value : Value) : headLeaves isNamed "iterator" value
    = if value.isTruthy = true then leavesIn .bare value.leaves
      else leavesIn .ignored value.leaves := by
  simp [headLeaves]

theorem headLeaves_labels (isNamed : Bool) (value : Value) :
    headLeaves isNamed "labels" value = labelLeaves value := by
  simp [headLeaves]

theorem headLeaves_content (isNamed : Bool) (value : Value) :
    headLeaves isNamed "content" value = leavesIn .ignored value.leaves := by
  simp [headLeaves]

theorem part_of_ne {key : String} (hkey : key ≠ "content") (isNamed : Bool)
    (fields : List (String × Value)) :
    part isNamed fields key
      = heeded (headLeaves isNamed key ((Value.record fields).field key)) := by
  have hentry : ∀ value, entryForms isNamed (key, value) = headLeaves isNamed key value := by
    intro value
    cases value with
    | record fields => rw [entryForms, if_neg hkey]
    | _ => rfl
  rw [part, Value.field]
  cases Table.get? fields key with
  | some value => rw [Option.elim_some, hentry value, Option.getD_some]
  | none =>
    have hnull : headLeaves isNamed key .null = [] :=
      List.map_eq_nil_iff.1 (map_value_headLeaves isNamed key .null)
    rw [Option.elim_none, Option.getD_none, hnull]
    rfl

theorem keeps_headLines {isNamed : Bool} {blockType : String}
    {fields : List (String × Value)} {level : Int} {lines : List String}
    (htype : isNamed = false → ∃ other, blockType = blockTypeOr fields other)
    (h : headLines blockType fields level = .ok lines) :
    KeepsLines (part isNamed fields "type" ++ part isNamed fields "for_each"
      ++ part isNamed fields "iterator" ++ part isNamed fields "labels") lines := by
  rw [headLines] at h
  obtain ⟨collection, hcollection, h⟩ := Outcome.bind_eq_ok.1 h
  obtain ⟨iterator, hiterator, h⟩ := Outcome.bind_eq_ok.1 h
  cases h
  have htypeLine : KeepsLines (part isNamed fields "type")
      [indent level ++ "dynamic " ++ quote blockType ++ " \x7b"] := by
    rw [part_of_ne (by decide), headLeaves_type]
    split
    · next hread =>
      have hquoted := keeps_shown ((Value.record fields).field "type")
      obtain ⟨other, hother⟩ := htype hread.1
      rw [hother, blockTypeOr, Value.orElse, if_pos hread.2, heeded_shownLeaves]
      exact .single ((hquoted.after _).before _)
    · rw [heeded_ignored]
      exact .none _
  have hforLine : KeepsLines (part isNamed fields "for_each")
      [indent (level + 1) ++ "for_each = " ++ collection] := by
    rw [part_of_ne (by decide), headLeaves, if_pos rfl, heeded_leavesIn (by decide)]
    exact .single ((keeps_literal _ hcollection).after _)
  have hiteratorLines : KeepsLines (part isNamed fields "iterator") iterator := by
    rw [part_of_ne (by decide), headLeaves_iterator]
    split
    · next hread =>
      rw [heeded_leavesIn (by decide)]
      exact keeps_iteratorLines hread hiterator
    · rw [heeded_ignored]
      exact .none _
  have hlabelLines : KeepsLines (part isNamed fields "labels")
      (labelLines ((Value.record fields).field "labels") (level + 1)) := by
    rw [part_of_ne (by decide), headLeaves_labels]
    exact keeps_labelLines _ _
  exact ((htypeLine.append hforLine).append hiteratorLines).append hlabelLines

theorem keeps_dynamicLines {isNamed : Bool} {blockType : String}
    {fields : List (String × Value)} (hkeys : (Table.keys fields).Nodup) {level : Int}
    {content : Except Error (List String)} {lines : List String}
    (htype : isNamed = false → ∃ other, blockType = blockTypeOr fields other)
    (hcontent : ∀ inner, content = .ok inner → KeepsLines (part isNamed fields "content") inner)
    (h : dynamicLines blockType fields content level = .ok lines) :
    KeepsLines (heeded (descriptorLeaves isNamed fields)) lines := by
  rw [dynamicLines] at h
  obtain ⟨head, hhead, h⟩ := Outcome.bind_eq_ok.1 h
  obtain ⟨inner, hinner, h⟩ := Outcome.bind_eq_ok.1 h
  cases h
  have hlines := ((keeps_headLines htype hhead).append (hcontent inner hinner)).before
    [indent level ++ "\x7d"]
  refine .perm ?_ hlines
  have hparts := perm_heeded_descriptorLeaves isNamed hkeys
  simpa only [descriptorKeys, List.flatMap_cons, List.flatMap_nil, List.append_nil,
    List.append_assoc] using hparts

/-! ## Attributes -/

theorem part_content_cons (isNamed : Bool) {key : String} (value : Value)
    {rest : List (String × Value)} (hkey : key ≠ "content") :
    part isNamed ((key, value) :: rest) "content" = part isNamed rest "content" := by
  rw [part, Table.get?_cons, if_neg hkey]
  rfl

/-- A key, an equals sign and a literal. -/
theorem keeps_assignment (value : Value) {key : String} {level : Int} {t : String}
    (h : (do return indent level ++ key ++ " = " ++ (← literalLine value level)) = Except.ok t) :
    Keeps (heeded (leavesIn .literal value.leaves)) t := by
  obtain ⟨s, hs, h⟩ := Outcome.bind_eq_ok.1 h
  cases h
  rw [heeded_leavesIn (by decide)]
  exact (keeps_literal _ hs).after _

mutual

theorem keeps_attributeText {key : String} {level : Int} {t : String} : ∀ value : Value,
    value.hasDistinctKeys = true → attributeText key value level = .ok t →
      Keeps (heeded (attributeLeaves key value)) t
  | .record fields, hkeys, h => by
    have hnodup := Value.nodup_keys_of_hasDistinctKeys hkeys
    rw [Value.hasDistinctKeys, Bool.and_eq_true] at hkeys
    rw [attributeText] at h
    rw [attributeLeaves]
    split at h
    · next hdescriptor =>
      obtain ⟨lines, hlines, h⟩ := Outcome.bind_eq_ok.1 h
      cases h
      rw [if_pos hdescriptor]
      exact keeps_dynamicLines hnodup (fun _ => ⟨_, rfl⟩)
        (fun inner hinner => keeps_contentLines false fields hkeys.2 hinner) hlines "\n"
    rw [if_neg ‹_›]
    split at h
    · obtain ⟨lines, hlines, h⟩ := Outcome.bind_eq_ok.1 h
      cases h
      rw [if_pos ‹_›]
      exact keeps_descriptorEntries fields hkeys.2 hlines "\n"
    rw [if_neg ‹_›]
    split at h
    · rw [if_pos ‹_›]
      split at h
      · next hempty =>
        rw [List.isEmpty_iff.1 hempty]
        exact .none t
      · obtain ⟨body, hbody, h⟩ := Outcome.bind_eq_ok.1 h
        cases h
        have hlines := keeps_attributeLines fields hkeys.2 hbody
        exact ((hlines.after _).before _) "\n"
    · rw [if_neg ‹_›]
      exact keeps_assignment (.record fields) h
  | .list items, hkeys, h => by
    rw [Value.hasDistinctKeys] at hkeys
    rw [attributeText] at h
    rw [attributeLeaves]
    split at h
    · obtain ⟨lines, hlines, h⟩ := Outcome.bind_eq_ok.1 h
      cases h
      rw [if_pos ‹_›]
      exact keeps_descriptorItems items hkeys hlines "\n"
    · rw [if_neg ‹_›]
      exact keeps_assignment (.list items) h
  | .null, _, h => keeps_assignment .null h
  | .bool b, _, h => keeps_assignment (.bool b) h
  | .int n, _, h => keeps_assignment (.int n) h
  | .float x, _, h => keeps_assignment (.float x) h
  | .text s, _, h => keeps_assignment (.text s) h

theorem keeps_attributeLines {level : Int} {lines : List String} :
    ∀ fields : List (String × Value), Value.fieldsHaveDistinctKeys fields = true →
      attributeLines fields level = .ok lines → KeepsLines (heeded (fieldLeaves fields)) lines
  | [], _, _ => .none _
  | (key, value) :: rest, hkeys, h => by
    rw [Value.fieldsHaveDistinctKeys, Bool.and_eq_true] at hkeys
    rw [attributeLines] at h
    obtain ⟨first, hfirst, h⟩ := Outcome.bind_eq_ok.1 h
    obtain ⟨others, hothers, h⟩ := Outcome.bind_eq_ok.1 h
    cases h
    rw [fieldLeaves, heeded_append]
    exact (KeepsLines.single (keeps_attributeText value hkeys.1 hfirst)).append
      (keeps_attributeLines rest hkeys.2 hothers)

theorem keeps_contentLines (isNamed : Bool) {level : Int} {lines : List String} :
    ∀ fields : List (String × Value), Value.fieldsHaveDistinctKeys fields = true →
      contentLines fields level = .ok lines → KeepsLines (part isNamed fields "content") lines
  | [], _, _ => .none _
  | (key, value) :: rest, hkeys, h => by
    rw [Value.fieldsHaveDistinctKeys, Bool.and_eq_true] at hkeys
    by_cases hcontent : key = "content"
    · subst hcontent
      rw [part, Table.get?_cons, if_pos rfl, Option.elim_some]
      cases value with
      | record fields =>
        rw [Value.hasDistinctKeys, Bool.and_eq_true] at hkeys
        rw [contentLines, if_pos rfl] at h
        rw [entryForms, if_pos rfl]
        split at h
        · next hempty =>
          rw [List.isEmpty_iff.1 hempty]
          exact .none _
        · obtain ⟨body, hbody, h⟩ := Outcome.bind_eq_ok.1 h
          cases h
          exact ((keeps_attributeLines fields hkeys.1.2 hbody).after _).before _
      | _ =>
        simp only [entryForms, headLeaves_content, heeded_ignored]
        exact .none _
    · have hrest : contentLines ((key, value) :: rest) level = contentLines rest level := by
        cases value <;> simp only [contentLines, if_neg hcontent]
      rw [part_content_cons isNamed value hcontent]
      exact keeps_contentLines isNamed rest hkeys.2 (hrest.symm.trans h)

theorem keeps_descriptorEntries {level : Int} {lines : List String} :
    ∀ fields : List (String × Value), Value.fieldsHaveDistinctKeys fields = true →
      descriptorEntries fields level = .ok lines → KeepsLines (heeded (entryLeaves fields)) lines
  | [], _, _ => .none _
  | (blockType, value) :: rest, hkeys, h => by
    rw [Value.fieldsHaveDistinctKeys, Bool.and_eq_true] at hkeys
    cases value with
    | record fields =>
      have hnodup := Value.nodup_keys_of_hasDistinctKeys hkeys.1
      rw [Value.hasDistinctKeys, Bool.and_eq_true] at hkeys
      rw [descriptorEntries] at h
      split at h
      · obtain ⟨first, hfirst, h⟩ := Outcome.bind_eq_ok.1 h
        obtain ⟨others, hothers, h⟩ := Outcome.bind_eq_ok.1 h
        cases h
        rw [entryLeaves, heeded_append]
        have hfirst := keeps_dynamicLines hnodup (fun hfalse => Bool.noConfusion hfalse)
          (fun inner hinner => keeps_contentLines true fields hkeys.1.2 hinner) hfirst
        exact hfirst.append (keeps_descriptorEntries rest hkeys.2 hothers)
      · cases h
    | _ => cases h

theorem keeps_descriptorItems {level : Int} {lines : List String} :
    ∀ items : List Value, Value.itemsHaveDistinctKeys items = true →
      descriptorItems items level = .ok lines → KeepsLines (heeded (itemLeaves items)) lines
  | [], _, _ => .none _
  | item :: rest, hkeys, h => by
    rw [Value.itemsHaveDistinctKeys, Bool.and_eq_true] at hkeys
    cases item with
    | record fields =>
      have hnodup := Value.nodup_keys_of_hasDistinctKeys hkeys.1
      rw [Value.hasDistinctKeys, Bool.and_eq_true] at hkeys
      rw [descriptorItems] at h
      rw [itemLeaves, heeded_append]
      split at h
      · obtain ⟨first, hfirst, h⟩ := Outcome.bind_eq_ok.1 h
        obtain ⟨others, hothers, h⟩ := Outcome.bind_eq_ok.1 h
        cases h
        rw [if_pos ‹_›]
        have hfirst := keeps_dynamicLines hnodup (fun _ => ⟨_, rfl⟩)
          (fun inner hinner => keeps_contentLines false fields hkeys.1.2 hinner) hfirst
        exact hfirst.append (keeps_descriptorItems rest hkeys.2 hothers)
      · obtain ⟨first, hfirst, h⟩ := Outcome.bind_eq_ok.1 h
        obtain ⟨others, hothers, h⟩ := Outcome.bind_eq_ok.1 h
        cases h
        rw [if_neg ‹_›]
        have hfirst := keeps_descriptorEntries fields hkeys.1.2 hfirst
        exact hfirst.append (keeps_descriptorItems rest hkeys.2 hothers)
    | _ => cases h

end

end Block

end BlockDiagram
