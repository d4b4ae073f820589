import BlockDiagram.Configuration
import BlockDiagram.Outcome
import Mathlib.Data.List.Nodup

/-!
# Every block becomes a node of its own

The blocks that a configuration declares are read off its sections by the order of kinds and, within
a section, by the order in which they stand. If no type has a dot, different blocks have different
ids, so none takes the place of another one.

* `declared`: the blocks of a configuration.
* `Declaration.eq_of_id_eq`: kind, type and name can be read off an id.
* `nodes_diagram`: the nodes of a diagram are the blocks of its configuration, in order.
-/

namespace BlockDiagram

namespace Value

mutual

/-- Whether every record holds each of its keys once, at every depth. -/
def hasDistinctKeys : Value → Bool
  | list items => itemsHaveDistinctKeys items
  | record fields => decide (Table.keys fields).Nodup && fieldsHaveDistinctKeys fields
  | _ => true

def itemsHaveDistinctKeys : List Value → Bool
  | [] => true
  | item :: rest => item.hasDistinctKeys && itemsHaveDistinctKeys rest

def fieldsHaveDistinctKeys : List (String × Value) → Bool
  | [] => true
  | (_, value) :: rest => value.hasDistinctKeys && fieldsHaveDistinctKeys rest

end

theorem nodup_keys_of_hasDistinctKeys {fields : List (String × Value)}
    (h : (record fields).hasDistinctKeys = true) : (Table.keys fields).Nodup := by
  rw [hasDistinctKeys, Bool.and_eq_true] at h
  exact of_decide_eq_true h.1

theorem hasDistinctKeys_of_mem {fields : List (String × Value)}
    (h : (record fields).hasDistinctKeys = true) {key : String} {value : Value}
    (hmem : (key, value) ∈ fields) : value.hasDistinctKeys = true := by
  rw [hasDistinctKeys, Bool.and_eq_true] at h
  have hfields := h.2
  clear h
  induction fields with
  | nil => cases hmem
  | cons field rest ih =>
    rw [fieldsHaveDistinctKeys, Bool.and_eq_true] at hfields
    rcases List.mem_cons.1 hmem with rfl | hmem
    · exact hfields.1
    · exact ih hmem hfields.2

theorem hasDistinctKeys_field {value : Value} (h : value.hasDistinctKeys = true) (key : String) :
    (value.field key).hasDistinctKeys = true := by
  cases value with
  | record fields =>
    rw [field]
    cases hfound : Table.get? fields key with
    | none => rfl
    | some found => exact hasDistinctKeys_of_mem h (Table.mem_of_get? hfound)
  | _ => rfl

end Value

namespace Configuration

open Outcome

/-! ## Declarations -/

/-- A block as a configuration declares it. -/
structure Declaration where
  kind : Kind
  type : Option String
  name : String
  body : Value

/-- The attributes of a block; a block may be null. -/
def Declaration.config (b : Declaration) : Value :=
  if b.body.isNull then .record [] else b.body

/-- The node of a block. -/
def Declaration.node (b : Declaration) : Node := Configuration.node b.kind b.type b.name b.config

/-- The blocks under one type, or under none. -/
def declaredUnder (kind : Kind) (type : Option String) : Value → List Declaration
  | .record blocks => blocks.map fun (name, body) => ⟨kind, type, name, body⟩
  | _ => []

/-- The blocks of a section: under their types if the kind has types. -/
def declaredIn (kind : Kind) (found : Value) : List Declaration :=
  if kind.isTyped then
    match found with
    | .record groups => groups.flatMap fun (type, blocks) => declaredUnder kind (some type) blocks
    | _ => []
  else declaredUnder kind none found

/-- The blocks of a configuration, section by section. -/
def declared (configuration : Value) : List Declaration :=
  Kind.all.flatMap fun kind => declaredIn kind (configuration.field kind.key)

theorem blocksUnder_eq {kind : Kind} {type : Option String} {place : String}
    {blocks : List (String × Value)} {nodes : List Node}
    (h : blocksUnder kind type place blocks = .ok nodes) :
    nodes = (declaredUnder kind type (.record blocks)).map Declaration.node := by
  rw [declaredUnder, List.map_map]
  refine eq_map_of_mapM_eq_ok h ?_
  rintro ⟨name, body⟩ - found hfound
  obtain ⟨config, hconfig, hfound⟩ := bind_eq_ok.1 hfound
  cases hfound
  cases body with
  | null =>
    cases hconfig
    rfl
  | record fields =>
    cases hconfig
    rfl
  | _ => cases hconfig

/-- A section that counts as absent declares nothing. -/
theorem declaredIn_orElse (kind : Kind) (found : Value) :
    declaredIn kind (found.orElse (.record [])) = declaredIn kind found := by
  have hempty : declaredIn kind (.record []) = [] := by
    cases kind <;> rfl
  rw [Value.orElse]
  split
  · rfl
  · next hfalsy =>
    rw [hempty]
    cases found with
    | record fields =>
      cases fields with
      | nil => exact hempty.symm
      | cons field rest => exact absurd rfl hfalsy
    | _ => cases kind <;> rfl

theorem eq_of_entries {sections : Value} {name : String} {found : List (String × Value)}
    (h : entries sections name = .ok found) :
    (sections.field name).orElse (.record []) = .record found := by
  unfold entries at h
  split at h
  · next fields hfields =>
    cases h
    exact hfields
  · cases h

theorem blocksOf_eq {sections : Value} {kind : Kind} {nodes : List Node}
    (h : blocksOf sections kind = .ok nodes) :
    nodes = (declaredIn kind (sections.field kind.key)).map Declaration.node := by
  obtain ⟨found, hfound, h⟩ := bind_eq_ok.1 h
  rw [← declaredIn_orElse, eq_of_entries hfound, declaredIn]
  split at h
  · next htyped =>
    obtain ⟨groups, hgroups, h⟩ := bind_eq_ok.1 h
    cases h
    rw [if_pos htyped, List.map_flatMap, List.flatMap_def]
    refine congrArg List.flatten (eq_map_of_mapM_eq_ok hgroups ?_)
    rintro ⟨type, blocks⟩ - group hgroup
    cases blocks with
    | record blocks => exact blocksUnder_eq hgroup
    | _ => cases hgroup
  · next huntyped =>
    rw [if_neg huntyped]
    exact blocksUnder_eq h

theorem blocks_eq {sections : Value} {nodes : List Node} (h : blocks sections = .ok nodes) :
    nodes = (declared sections).map Declaration.node := by
  obtain ⟨groups, hgroups, h⟩ := bind_eq_ok.1 h
  cases h
  have heq := eq_map_of_mapM_eq_ok hgroups fun kind _ found hfound => blocksOf_eq hfound
  rw [heq, declared, List.map_flatMap, List.flatMap_def]

/-! ## Ids -/

/-- A block of a typed kind has a type, without a dot if it is to be read off an id; one of another
kind has none. -/
structure Declaration.IsPlain (b : Declaration) : Prop where
  typed : b.type.isSome = b.kind.isTyped
  dotless : ∀ type ∈ b.type, '.' ∉ type.toList

theorem not_mem_root (kind : Kind) : '.' ∉ kind.root.toList := by
  cases kind <;> decide

theorem root_inj {kind kind' : Kind} (h : kind.root.toList = kind'.root.toList) : kind = kind' := by
  revert h
  cases kind <;> cases kind' <;> decide

/-- What stands behind the kind's segment of an id. -/
def Declaration.rest (b : Declaration) : List Char :=
  match b.type with
  | some type => type.toList ++ '.' :: b.name.toList
  | none => b.name.toList

theorem toList_id {b : Declaration} (h : b.type.isSome = b.kind.isTyped) :
    b.node.id.toList = b.kind.root.toList ++ '.' :: b.rest := by
  have hid : b.node.id = b.kind.nodeId (some b.name) b.type := rfl
  rw [hid, Kind.nodeId, Declaration.rest]
  cases htype : b.type with
  | none =>
    rw [htype] at h
    rw [← h]
    simp [Kind.nameText]
  | some type =>
    rw [htype] at h
    rw [← h]
    simp [Kind.nameText]

/-- Kind, type and name of a block can be read off its id. -/
theorem Declaration.eq_of_id_eq {b b' : Declaration} (hb : b.IsPlain) (hb' : b'.IsPlain)
    (h : b.node.id = b'.node.id) : b.kind = b'.kind ∧ b.type = b'.type ∧ b.name = b'.name := by
  have hchars := congrArg String.toList h
  rw [toList_id hb.typed, toList_id hb'.typed] at hchars
  obtain ⟨hroot, hrest⟩ := Text.append_mark_inj (not_mem_root _) (not_mem_root _) hchars
  have hkind := root_inj hroot
  refine ⟨hkind, ?_⟩
  have htyped : b.type.isSome = b'.type.isSome := by
    rw [hb.typed, hb'.typed, hkind]
  rw [Declaration.rest, Declaration.rest] at hrest
  cases htype : b.type with
  | none =>
    cases htype' : b'.type with
    | none =>
      rw [htype, htype'] at hrest
      exact ⟨rfl, String.toList_inj.1 hrest⟩
    | some type' =>
      rw [htype, htype'] at htyped
      cases htyped
  | some type =>
    cases htype' : b'.type with
    | none =>
      rw [htype, htype'] at htyped
      cases htyped
    | some type' =>
      rw [htype, htype'] at hrest
      obtain ⟨htypes, hnames⟩ := Text.append_mark_inj (hb.dotless type htype)
        (hb'.dotless type' htype') hrest
      exact ⟨congrArg some (String.toList_inj.1 htypes), String.toList_inj.1 hnames⟩

/-! ## Declarations differ -/

/-- Two blocks differ in kind, type or name. -/
def Declaration.Differs (b b' : Declaration) : Prop :=
  ¬ (b.kind = b'.kind ∧ b.type = b'.type ∧ b.name = b'.name)

theorem mem_declaredUnder {kind : Kind} {type : Option String} {found : Value} {b : Declaration}
    (h : b ∈ declaredUnder kind type found) : b.kind = kind ∧ b.type = type := by
  cases found with
  | record blocks =>
    obtain ⟨block, -, rfl⟩ := List.mem_map.1 h
    exact ⟨rfl, rfl⟩
  | _ => cases h

theorem mem_declaredIn {kind : Kind} {found : Value} {b : Declaration}
    (h : b ∈ declaredIn kind found) : b.kind = kind ∧ b.type.isSome = b.kind.isTyped := by
  unfold declaredIn at h
  split at h
  · next htyped =>
    cases found with
    | record groups =>
      obtain ⟨⟨type, blocks⟩, -, h⟩ := List.mem_flatMap.1 h
      obtain ⟨hkind, htype⟩ := mem_declaredUnder h
      rw [hkind, htype, htyped]
      exact ⟨rfl, rfl⟩
    | _ => cases h
  · next huntyped =>
    obtain ⟨hkind, htype⟩ := mem_declaredUnder h
    rw [hkind, htype]
    exact ⟨rfl, (Bool.eq_false_iff.2 huntyped).symm⟩

theorem pairwise_declaredUnder (kind : Kind) (type : Option String) {found : Value}
    (h : found.hasDistinctKeys = true) :
    (declaredUnder kind type found).Pairwise Declaration.Differs := by
  cases found with
  | record blocks =>
    have hnames := Value.nodup_keys_of_hasDistinctKeys h
    rw [declaredUnder, List.pairwise_map]
    exact (List.pairwise_map.1 hnames).imp fun hne hsame => hne hsame.2.2
  | _ => exact .nil

theorem pairwise_declaredIn (kind : Kind) {found : Value} (h : found.hasDistinctKeys = true) :
    (declaredIn kind found).Pairwise Declaration.Differs := by
  unfold declaredIn
  split
  · cases found with
    | record groups =>
      have htypes := List.pairwise_map.1 (Value.nodup_keys_of_hasDistinctKeys h)
      rw [List.pairwise_flatMap]
      constructor
      · rintro ⟨type, blocks⟩ hgroup
        exact pairwise_declaredUnder kind _ (Value.hasDistinctKeys_of_mem h hgroup)
      · refine htypes.imp fun hne b hb b' hb' hsame => hne ?_
        have htype := (mem_declaredUnder hb).2.symm.trans
          (hsame.2.1.trans (mem_declaredUnder hb').2)
        exact Option.some.inj htype
    | _ => exact .nil
  · exact pairwise_declaredUnder kind none h

theorem pairwise_declared {configuration : Value} (h : configuration.hasDistinctKeys = true) :
    (declared configuration).Pairwise Declaration.Differs := by
  have hkinds : Kind.all.Pairwise (· ≠ ·) := by decide
  rw [declared, List.pairwise_flatMap]
  constructor
  · intro kind _
    exact pairwise_declaredIn kind (Value.hasDistinctKeys_field h kind.key)
  · refine hkinds.imp fun hne b hb b' hb' hsame => hne ?_
    exact (mem_declaredIn hb).1.symm.trans (hsame.1.trans (mem_declaredIn hb').1)

theorem isPlain_of_mem {configuration : Value}
    (hdots : ∀ b ∈ declared configuration, ∀ type ∈ b.type, '.' ∉ type.toList)
    {b : Declaration} (h : b ∈ declared configuration) : b.IsPlain := by
  obtain ⟨kind, -, hb⟩ := List.mem_flatMap.1 h
  exact ⟨(mem_declaredIn hb).2, hdots b h⟩

theorem nodup_ids {configuration : Value} (hkeys : configuration.hasDistinctKeys = true)
    (hdots : ∀ b ∈ declared configuration, ∀ type ∈ b.type, '.' ∉ type.toList) :
    ((declared configuration).map fun b => b.node.id).Nodup := by
  refine List.pairwise_map.2 ((pairwise_declared hkeys).imp_of_mem fun hb hb' hdiffers hid => ?_)
  exact hdiffers (Declaration.eq_of_id_eq (isPlain_of_mem hdots hb) (isPlain_of_mem hdots hb') hid)

theorem nodes_foldl_connect (d : Diagram) (cs : List Connection) :
    (cs.foldl Diagram.connect d).nodes = d.nodes := by
  induction cs generalizing d with
  | nil => rfl
  | cons c cs ih => exact ih (d.connect c)

/-- The nodes of a configuration's diagram are its blocks, one for each, in order. -/
theorem nodes_diagram {configuration : Value} {options : Options} {d : Diagram}
    (hkeys : configuration.hasDistinctKeys = true)
    (hdots : ∀ b ∈ declared configuration, ∀ type ∈ b.type, '.' ∉ type.toList)
    (h : diagram configuration options = .ok d) :
    d.nodes = (declared configuration).map fun b => (b.node.id, b.node) := by
  unfold diagram at h
  split at h
  · obtain ⟨found, hfound, h⟩ := bind_eq_ok.1 h
    cases h
    rw [nodes_foldl_connect, blocks_eq hfound, List.map_map]
    apply Table.ofList_eq_self
    rw [Table.keys, List.map_map]
    exact nodup_ids hkeys hdots
  · cases h

end Configuration

end BlockDiagram
