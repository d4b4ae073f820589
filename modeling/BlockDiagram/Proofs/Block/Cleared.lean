import BlockDiagram.Proofs.Block.Leaves
import BlockDiagram.Proofs.Configuration.Nodes
import BlockDiagram.Proofs.Store

/-!
# Attributes without what is ignored

What is ignored of the descriptor of a dynamic block can be taken away: the leaves that are left are
those that are not ignored, and the lines are the same.

* `cleared`: an attribute without what is ignored of it.
* `attributeLeaves_cleared`: what is left of the leaves.
* `attributeText_cleared`: the same text.
-/

namespace BlockDiagram.Block

/-- Whether an entry of a descriptor, its content apart, is read. -/
def isRead (isNamed : Bool) (key : String) (value : Value) : Bool :=
  if key = "for_each" then true
  else if key = "labels" then value matches .list _
  else value.isTruthy && (key == "iterator" || key == "type" && !isNamed)

mutual

/-- An attribute without what is ignored of it. -/
def cleared (key : String) : Value → Value
  | .record fields =>
    if isDescriptor fields then .record (clearedDescriptor false fields)
    else if key = "dynamic" then .record (clearedEntries fields)
    else if fields.all fun field => isBareKey field.1 then .record (clearedFields fields)
    else .record fields
  | .list items => if key = "dynamic" then .list (clearedItems items) else .list items
  | value => value

/-- Several attributes without what is ignored of them. -/
def clearedFields : List (String × Value) → List (String × Value)
  | [] => []
  | (key, value) :: rest => (key, cleared key value) :: clearedFields rest

/-- The entries of a descriptor that are read. -/
def clearedDescriptor (isNamed : Bool) : List (String × Value) → List (String × Value)
  | [] => []
  | (key, .record fields) :: rest =>
    if key = "content" then
      (key, .record (clearedFields fields)) :: clearedDescriptor isNamed rest
    else if isRead isNamed key (.record fields) then
      (key, .record fields) :: clearedDescriptor isNamed rest
    else clearedDescriptor isNamed rest
  | (key, value) :: rest =>
    if isRead isNamed key value then (key, value) :: clearedDescriptor isNamed rest
    else clearedDescriptor isNamed rest

/-- Descriptors under their block types, each without what is ignored of it. -/
def clearedEntries : List (String × Value) → List (String × Value)
  | [] => []
  | (key, .record fields) :: rest =>
    (key, .record (clearedDescriptor true fields)) :: clearedEntries rest
  | entry :: rest => entry :: clearedEntries rest

/-- Descriptors in a list, each without what is ignored of it. -/
def clearedItems : List Value → List Value
  | [] => []
  | .record fields :: rest =>
    .record (if isDescriptor fields then clearedDescriptor false fields else clearedEntries fields)
      :: clearedItems rest
  | item :: rest => item :: clearedItems rest

end

/-! ## What is left -/

theorem keys_clearedFields (fields : List (String × Value)) :
    Table.keys (clearedFields fields) = Table.keys fields := by
  induction fields with
  | nil => rfl
  | cons entry rest ih => exact congrArg (entry.1 :: ·) ih

theorem keys_clearedEntries (fields : List (String × Value)) :
    Table.keys (clearedEntries fields) = Table.keys fields := by
  induction fields with
  | nil => rfl
  | cons entry rest ih =>
    obtain ⟨key, value⟩ := entry
    cases value <;> exact congrArg (key :: ·) ih

theorem isDescriptor_congr {fields others : List (String × Value)}
    (h : Table.keys fields = Table.keys others) : isDescriptor fields = isDescriptor others := by
  rw [Bool.eq_iff_iff, isDescriptor, isDescriptor, ← Table.mem_keys_iff, h, Table.mem_keys_iff]

theorem isDescriptor_clearedDescriptor (isNamed : Bool) (fields : List (String × Value)) :
    isDescriptor (clearedDescriptor isNamed fields) = isDescriptor fields := by
  have hcons : ∀ key value (rest : List (String × Value)),
      isDescriptor ((key, value) :: rest) = (key == "for_each" || isDescriptor rest) := by
    intro key value rest
    rw [isDescriptor, Table.has, Table.get?_cons]
    split <;> simp_all [isDescriptor, Table.has]
  induction fields with
  | nil => rfl
  | cons entry rest ih =>
    obtain ⟨key, value⟩ := entry
    have hread : ∀ value, isRead isNamed key value = false → (key == "for_each") = false := by
      intro value hread
      rw [beq_eq_false_iff_ne]
      rintro rfl
      cases hread
    cases value with
    | record fields =>
      rw [clearedDescriptor]
      split
      · rw [hcons, hcons, ih]
      split
      · rw [hcons, hcons, ih]
      · rw [hcons, hread _ (Bool.eq_false_iff.2 ‹_›), ih, Bool.false_or]
    | _ =>
      simp only [clearedDescriptor]
      split
      · rw [hcons, hcons, ih]
      · rw [hcons, hread _ (Bool.eq_false_iff.2 ‹_›), ih, Bool.false_or]

theorem isBare_clearedFields (fields : List (String × Value)) :
    ((clearedFields fields).all fun field => isBareKey field.1)
      = fields.all fun field => isBareKey field.1 := by
  have hkeys : ∀ fields : List (String × Value),
      (fields.all fun field => isBareKey field.1) = (Table.keys fields).all isBareKey := by
    intro fields
    rw [Table.keys, List.all_map]
    rfl
  rw [hkeys, hkeys, keys_clearedFields]

theorem isRead_for_each (isNamed : Bool) (value : Value) :
    isRead isNamed "for_each" value = true :=
  if_pos rfl

theorem isRead_content (isNamed : Bool) (value : Value) :
    isRead isNamed "content" value = false := by
  simp [isRead]

/-- What is not read of a descriptor are the leaves that are ignored. -/
theorem heeded_headLeaves (isNamed : Bool) (key : String) (value : Value) :
    heeded (headLeaves isNamed key value)
      = if isRead isNamed key value then headLeaves isNamed key value else [] := by
  unfold headLeaves isRead
  by_cases hfor : key = "for_each"
  · simp only [if_pos hfor, if_true]
    exact heeded_leavesIn (by decide) _
  simp only [if_neg hfor]
  by_cases htype : key = "type"
  · subst htype
    cases isNamed <;> by_cases htruthy : value.isTruthy = true <;>
      simp [htruthy, heeded_shownLeaves, heeded_ignored]
  by_cases hiterator : key = "iterator"
  · subst hiterator
    by_cases htruthy : value.isTruthy = true <;> simp [htruthy, heeded_ignored]
    exact heeded_leavesIn (by decide) _
  by_cases hlabels : key = "labels"
  · subst hlabels
    cases value with
    | list labels => simp [heeded_labelLeaves]
    | _ => simp [labelLeaves, heeded_ignored]
  · simp [htype, hiterator, hlabels, heeded_ignored]

mutual

/-- The leaves that are left are those that are not ignored. -/
theorem attributeLeaves_cleared (key : String) : ∀ value : Value,
    attributeLeaves key (cleared key value) = heeded (attributeLeaves key value)
  | .record fields => by
    rw [attributeLeaves, cleared]
    split
    · next hdescriptor =>
      rw [attributeLeaves, isDescriptor_clearedDescriptor, if_pos hdescriptor]
      exact descriptorLeaves_clearedDescriptor false fields
    next hdescriptor =>
    split
    · rw [attributeLeaves, isDescriptor_congr (keys_clearedEntries fields), if_neg hdescriptor,
        if_pos ‹_›]
      exact entryLeaves_clearedEntries fields
    split
    · next hbare =>
      rw [attributeLeaves, isDescriptor_congr (keys_clearedFields fields), if_neg hdescriptor,
        if_neg ‹_›, isBare_clearedFields, if_pos hbare]
      exact fieldLeaves_clearedFields fields
    · next hbare =>
      rw [attributeLeaves, if_neg hdescriptor, if_neg ‹_›, if_neg hbare,
        heeded_leavesIn (by decide)]
  | .list items => by
    rw [attributeLeaves, cleared]
    split
    · next hdynamic =>
      rw [attributeLeaves, if_pos hdynamic]
      exact itemLeaves_clearedItems items
    · next hdynamic => rw [attributeLeaves, if_neg hdynamic, heeded_leavesIn (by decide)]
  | .null => rfl
  | .bool _ => rfl
  | .int _ => rfl
  | .float _ => rfl
  | .text _ => rfl

theorem fieldLeaves_clearedFields : ∀ fields : List (String × Value),
    fieldLeaves (clearedFields fields) = heeded (fieldLeaves fields)
  | [] => rfl
  | (key, value) :: rest => by
    rw [clearedFields, fieldLeaves, fieldLeaves, heeded_append, attributeLeaves_cleared key value,
      fieldLeaves_clearedFields rest]

theorem descriptorLeaves_clearedDescriptor (isNamed : Bool) : ∀ fields : List (String × Value),
    descriptorLeaves isNamed (clearedDescriptor isNamed fields)
      = heeded (descriptorLeaves isNamed fields)
  | [] => rfl
  | (key, value) :: rest => by
    have hrest := descriptorLeaves_clearedDescriptor isNamed rest
    have hhead := heeded_headLeaves isNamed key value
    cases value with
    | record fields =>
      rw [clearedDescriptor, descriptorLeaves, heeded_append, ← hrest]
      split
      · rw [descriptorLeaves, if_pos ‹_›, fieldLeaves_clearedFields fields]
      rw [hhead]
      split
      · rw [descriptorLeaves, if_neg ‹_›]
      · rfl
    | _ =>
      simp only [clearedDescriptor, descriptorLeaves, heeded_append, ← hrest, hhead]
      split
      · simp only [descriptorLeaves]
      · rfl

theorem entryLeaves_clearedEntries : ∀ fields : List (String × Value),
    entryLeaves (clearedEntries fields) = heeded (entryLeaves fields)
  | [] => rfl
  | (key, value) :: rest => by
    have hrest := entryLeaves_clearedEntries rest
    cases value with
    | record fields =>
      rw [clearedEntries, entryLeaves, entryLeaves, heeded_append, hrest,
        descriptorLeaves_clearedDescriptor true fields]
    | _ =>
      simp only [clearedEntries, entryLeaves, heeded_append, hrest]
      rw [heeded_leavesIn (by decide)]

theorem itemLeaves_clearedItems : ∀ items : List Value,
    itemLeaves (clearedItems items) = heeded (itemLeaves items)
  | [] => rfl
  | item :: rest => by
    have hrest := itemLeaves_clearedItems rest
    cases item with
    | record fields =>
      rw [clearedItems, itemLeaves, itemLeaves, heeded_append, hrest]
      split
      · next hdescriptor =>
        rw [isDescriptor_clearedDescriptor, if_pos hdescriptor,
          descriptorLeaves_clearedDescriptor false fields]
      · next hdescriptor =>
        rw [isDescriptor_congr (keys_clearedEntries fields), if_neg hdescriptor,
          entryLeaves_clearedEntries fields]
    | _ =>
      simp only [clearedItems, itemLeaves, heeded_append, hrest]
      rw [heeded_leavesIn (by decide)]

end

/-! ## The same text -/

/-- A descriptor has each of its keys once, so clearing it leaves what is read of it in place. -/
theorem get?_clearedDescriptor (isNamed : Bool) {fields : List (String × Value)}
    (hkeys : (Table.keys fields).Nodup) {key : String} (hkey : key ≠ "content") :
    Table.get? (clearedDescriptor isNamed fields) key
      = (Table.get? fields key).filter (isRead isNamed key) := by
  induction fields with
  | nil => rfl
  | cons entry rest ih =>
    obtain ⟨other, value⟩ := entry
    obtain ⟨hnew, hrest⟩ := List.nodup_cons.1 hkeys
    have hfound := ih hrest
    -- An entry that is dropped has no other one of its key behind it.
    have hdropped : isRead isNamed other value = false →
        Table.get? (clearedDescriptor isNamed rest) key
          = (Table.get? ((other, value) :: rest) key).filter (isRead isNamed key) := by
      intro hread
      rw [hfound, Table.get?_cons]
      split
      · next hsame =>
        subst hsame
        rw [Table.get?_eq_none_iff.2 hnew, Option.filter_some, hread]
        rfl
      · rfl
    have hkept : isRead isNamed other value = true →
        Table.get? ((other, value) :: clearedDescriptor isNamed rest) key
          = (Table.get? ((other, value) :: rest) key).filter (isRead isNamed key) := by
      intro hread
      rw [Table.get?_cons, Table.get?_cons]
      split
      · next hsame =>
        subst hsame
        rw [Option.filter_some, hread, if_pos rfl]
      · exact hfound
    cases value with
    | record fields =>
      rw [clearedDescriptor]
      split
      · next hcontent =>
        rw [Table.get?_cons, Table.get?_cons, if_neg fun hsame => hkey (hsame.symm.trans hcontent),
          if_neg fun hsame => hkey (hsame.symm.trans hcontent), hfound]
      split
      · exact hkept ‹_›
      · exact hdropped (Bool.eq_false_iff.2 ‹_›)
    | _ =>
      simp only [clearedDescriptor]
      split
      · exact hkept ‹_›
      · exact hdropped (Bool.eq_false_iff.2 ‹_›)

theorem field_clearedDescriptor (isNamed : Bool) {fields : List (String × Value)}
    (hkeys : (Table.keys fields).Nodup) {key : String} (hkey : key ≠ "content") :
    (Value.record (clearedDescriptor isNamed fields)).field key
      = if isRead isNamed key ((Value.record fields).field key) then (Value.record fields).field key
        else .null := by
  rw [Value.field, Value.field, get?_clearedDescriptor isNamed hkeys hkey]
  cases Table.get? fields key with
  | none => split <;> rfl
  | some value =>
    rw [Option.filter_some, Option.getD_some]
    split <;> rfl

theorem headLines_clearedDescriptor (isNamed : Bool) {fields : List (String × Value)}
    (hkeys : (Table.keys fields).Nodup) (blockType : String) (level : Int) :
    headLines blockType (clearedDescriptor isNamed fields) level
      = headLines blockType fields level := by
  have hiterator : ∀ given, iteratorLines (if isRead isNamed "iterator" given then given else .null)
      (level + 1) = iteratorLines given (level + 1) := by
    intro given
    split
    · rfl
    · next hread =>
      have htruthy : ¬ given.isTruthy = true := by simpa [isRead] using hread
      unfold iteratorLines
      rw [if_neg htruthy]
      rfl
  have hlabels : ∀ given, labelLines (if isRead isNamed "labels" given then given else .null)
      (level + 1) = labelLines given (level + 1) := by
    intro given
    cases given <;> rfl
  rw [headLines, headLines, field_clearedDescriptor isNamed hkeys (by decide), if_pos
    (isRead_for_each isNamed _), field_clearedDescriptor isNamed hkeys (by decide), hiterator,
    field_clearedDescriptor isNamed hkeys (by decide), hlabels]

theorem blockTypeOr_clearedDescriptor {fields : List (String × Value)}
    (hkeys : (Table.keys fields).Nodup) (other : String) :
    blockTypeOr (clearedDescriptor false fields) other = blockTypeOr fields other := by
  rw [blockTypeOr, blockTypeOr, field_clearedDescriptor false hkeys (by decide)]
  generalize (Value.record fields).field "type" = given
  split
  · rfl
  · next hread =>
    have htruthy : ¬ given.isTruthy = true := by simpa [isRead] using hread
    rw [Value.orElse, Value.orElse, if_neg htruthy]
    rfl

theorem dynamicLines_clearedDescriptor (isNamed : Bool) {fields : List (String × Value)}
    (hkeys : (Table.keys fields).Nodup) (blockType : String)
    (content : Except Error (List String)) (level : Int) :
    dynamicLines blockType (clearedDescriptor isNamed fields) content level
      = dynamicLines blockType fields content level := by
  rw [dynamicLines, dynamicLines, headLines_clearedDescriptor isNamed hkeys]

theorem contentLines_eq_nil {fields : List (String × Value)}
    (h : "content" ∉ Table.keys fields) (level : Int) : contentLines fields level = .ok [] := by
  induction fields with
  | nil => rfl
  | cons entry rest ih =>
    obtain ⟨key, value⟩ := entry
    obtain ⟨hkey, hrest⟩ := not_or.1 (mt List.mem_cons.2 h)
    cases value <;> simp only [contentLines, if_neg (Ne.symm hkey), ih hrest]

mutual

/-- What is ignored of an attribute has no part in its text. -/
theorem attributeText_cleared (key : String) (level : Int) : ∀ value : Value,
    value.hasDistinctKeys = true →
      attributeText key (cleared key value) level = attributeText key value level
  | .record fields, h => by
    have hkeys := Value.nodup_keys_of_hasDistinctKeys h
    rw [Value.hasDistinctKeys, Bool.and_eq_true] at h
    rw [cleared, attributeText]
    split
    · next hdescriptor =>
      rw [attributeText, isDescriptor_clearedDescriptor, if_pos hdescriptor,
        blockTypeOr_clearedDescriptor hkeys,
        contentLines_clearedDescriptor false _ fields hkeys h.2]
      simp only [dynamicLines_clearedDescriptor false hkeys]
    next hdescriptor =>
    split
    · rw [attributeText, isDescriptor_congr (keys_clearedEntries fields), if_neg hdescriptor,
        if_pos ‹_›, descriptorEntries_clearedEntries _ fields h.2]
    split
    · next hbare =>
      have hempty : (clearedFields fields).isEmpty = fields.isEmpty := by cases fields <;> rfl
      rw [attributeText, isDescriptor_congr (keys_clearedFields fields), if_neg hdescriptor,
        if_neg ‹_›, isBare_clearedFields, if_pos hbare, hempty,
        attributeLines_clearedFields _ fields h.2]
    · next hbare => rw [attributeText, if_neg hdescriptor, if_neg ‹_›, if_neg hbare]
  | .list items, h => by
    rw [Value.hasDistinctKeys] at h
    rw [cleared, attributeText]
    split
    · rw [attributeText, if_pos ‹_›, descriptorItems_clearedItems _ items h]
    · rw [attributeText, if_neg ‹_›]
  | .null, _ => rfl
  | .bool _, _ => rfl
  | .int _, _ => rfl
  | .float _, _ => rfl
  | .text _, _ => rfl

theorem attributeLines_clearedFields (level : Int) : ∀ fields : List (String × Value),
    Value.fieldsHaveDistinctKeys fields = true →
      attributeLines (clearedFields fields) level = attributeLines fields level
  | [], _ => rfl
  | (key, value) :: rest, h => by
    rw [Value.fieldsHaveDistinctKeys, Bool.and_eq_true] at h
    rw [clearedFields, attributeLines, attributeLines, attributeText_cleared key level value h.1,
      attributeLines_clearedFields level rest h.2]

theorem contentLines_clearedDescriptor (isNamed : Bool) (level : Int) :
    ∀ fields : List (String × Value), (Table.keys fields).Nodup →
      Value.fieldsHaveDistinctKeys fields = true →
      contentLines (clearedDescriptor isNamed fields) level = contentLines fields level
  | [], _, _ => rfl
  | (key, value) :: rest, hkeys, h => by
    obtain ⟨hnew, hnodup⟩ := List.nodup_cons.1 hkeys
    rw [Value.fieldsHaveDistinctKeys, Bool.and_eq_true] at h
    have hrest := contentLines_clearedDescriptor isNamed level rest hnodup h.2
    by_cases hcontent : key = "content"
    · subst hcontent
      have hnone : contentLines rest level = .ok [] := contentLines_eq_nil hnew level
      cases value with
      | record fields =>
        rw [Value.hasDistinctKeys, Bool.and_eq_true] at h
        have hempty : (clearedFields fields).isEmpty = fields.isEmpty := by cases fields <;> rfl
        rw [clearedDescriptor, if_pos rfl, contentLines, contentLines, if_pos rfl, if_pos rfl,
          hempty, attributeLines_clearedFields _ fields h.1.2]
      | _ =>
        simp only [clearedDescriptor, isRead_content, contentLines, if_neg Bool.false_ne_true,
          hrest, hnone, if_true]
    · have hskip : ∀ value (others : List (String × Value)),
          contentLines ((key, value) :: others) level = contentLines others level := by
        intro value others
        cases value <;> simp only [contentLines, if_neg hcontent]
      cases value with
      | record fields =>
        rw [clearedDescriptor, if_neg hcontent, hskip, ← hrest]
        split
        · rw [hskip]
        · rfl
      | _ =>
        simp only [clearedDescriptor]
        rw [hskip, ← hrest]
        split
        · rw [hskip]
        · rfl

theorem descriptorEntries_clearedEntries (level : Int) : ∀ fields : List (String × Value),
    Value.fieldsHaveDistinctKeys fields = true →
      descriptorEntries (clearedEntries fields) level = descriptorEntries fields level
  | [], _ => rfl
  | (key, value) :: rest, h => by
    rw [Value.fieldsHaveDistinctKeys, Bool.and_eq_true] at h
    cases value with
    | record fields =>
      have hkeys := Value.nodup_keys_of_hasDistinctKeys h.1
      rw [Value.hasDistinctKeys, Bool.and_eq_true] at h
      rw [clearedEntries, descriptorEntries, descriptorEntries, isDescriptor_clearedDescriptor,
        contentLines_clearedDescriptor true _ fields hkeys h.1.2,
        dynamicLines_clearedDescriptor true hkeys, descriptorEntries_clearedEntries level rest h.2]
    | _ => rfl

theorem descriptorItems_clearedItems (level : Int) : ∀ items : List Value,
    Value.itemsHaveDistinctKeys items = true →
      descriptorItems (clearedItems items) level = descriptorItems items level
  | [], _ => rfl
  | item :: rest, h => by
    rw [Value.itemsHaveDistinctKeys, Bool.and_eq_true] at h
    have hrest := descriptorItems_clearedItems level rest h.2
    cases item with
    | record fields =>
      have hkeys := Value.nodup_keys_of_hasDistinctKeys h.1
      rw [Value.hasDistinctKeys, Bool.and_eq_true] at h
      rw [clearedItems, descriptorItems, descriptorItems, hrest]
      split
      · next hdescriptor =>
        rw [isDescriptor_clearedDescriptor, if_pos hdescriptor, blockTypeOr_clearedDescriptor hkeys,
          contentLines_clearedDescriptor false _ fields hkeys h.1.2,
          dynamicLines_clearedDescriptor false hkeys]
      · next hdescriptor =>
        rw [isDescriptor_congr (keys_clearedEntries fields), if_neg hdescriptor,
          descriptorEntries_clearedEntries _ fields h.1.2]
    | _ => rfl

end

end BlockDiagram.Block
