import BlockDiagram.Proofs.Configuration.WellFormed
import BlockDiagram.Proofs.Reference.Scan

/-!
# Which node an expression resolves to

An expression has several candidates, and the first one that is a node counts. When names and types
are identifiers the order does not matter: at most one candidate is a node, the one whose id, or
whose type and name if it is a resource, the address of the expression begins with.

* `mem_candidates`, `mem_implied`: the candidates of an expression.
* `isNamedBy_of_mem_candidates`, `mem_candidates_of_isNamedBy`: the candidates that are nodes.
* `IsNamedBy.unique`: an address names one node at most.
* `resolve?_candidates_iff`: the node that an expression resolves to.
-/

namespace BlockDiagram

open Text

/-- Names and types that can be read off an address: identifiers, and for a resource a type that is
neither the first segment of an id nor one that names no block. -/
structure Node.IsPlain (node : Node) : Prop where
  name : ∃ name, node.name = some name ∧ isIdentifier name.toList = true
  type : node.kind.isTyped = true →
    ∃ type, node.resourceType = some type ∧ isIdentifier type.toList = true
  root : node.kind = .resource → ∀ type ∈ node.resourceType,
    type ∉ Reference.idRoots ∧ type ∉ Reference.outerRoots

/-- Every node is stored under the id that its kind, type and name make, and these are plain. -/
structure Diagram.HasPlainNames (d : Diagram) : Prop where
  id_eq : ∀ id node, d.nodes.get? id = some node →
    id = node.kind.nodeId node.name node.resourceType
  node : ∀ id node, d.nodes.get? id = some node → node.IsPlain

/-- Whether the segments of an address begin with those of a node's id or, for a resource, with its
type and name. -/
def Node.IsNamedBy (node : Node) (id : String) (parts : List String) : Prop :=
  splitAt '.' id <+: parts ∨
    node.kind = .resource ∧ [Kind.nameText node.resourceType, Kind.nameText node.name] <+: parts

/-- The segments of a node's id. -/
def Node.path (node : Node) : List String :=
  if node.kind.isTyped then
    [node.kind.root, Kind.nameText node.resourceType, Kind.nameText node.name]
  else [node.kind.root, Kind.nameText node.name]

/-! ## Ids -/

namespace Node

theorem join_path (node : Node) :
    join "." node.path = node.kind.nodeId node.name node.resourceType := by
  rw [path, Kind.nodeId]
  split <;> simp [join, String.append_assoc]

variable {node : Node}

theorem IsPlain.identifier_name (h : node.IsPlain) :
    isIdentifier (Kind.nameText node.name).toList = true := by
  obtain ⟨name, hname, hplain⟩ := h.name
  rw [hname]
  exact hplain

theorem IsPlain.identifier_type (h : node.IsPlain) (htyped : node.kind.isTyped = true) :
    isIdentifier (Kind.nameText node.resourceType).toList = true := by
  obtain ⟨type, htype, hplain⟩ := h.type htyped
  rw [htype]
  exact hplain

theorem IsPlain.identifier_of_mem_path (h : node.IsPlain) :
    ∀ piece ∈ node.path, isIdentifier piece.toList = true := by
  have hroot : isIdentifier node.kind.root.toList = true := by
    cases node.kind <;> decide
  rw [path]
  split
  · next htyped => simp [hroot, h.identifier_type htyped, h.identifier_name]
  · simp [hroot, h.identifier_name]

theorem path_ne_nil (node : Node) : node.path ≠ [] := by
  rw [path]
  split <;> exact List.cons_ne_nil _ _

theorem IsPlain.splitAt_id (h : node.IsPlain) :
    splitAt '.' (node.kind.nodeId node.name node.resourceType) = node.path := by
  rw [← join_path]
  exact splitAt_join node.path_ne_nil fun piece hpiece =>
    not_mem_of_isIdentifier (h.identifier_of_mem_path piece hpiece) (by decide)

/-- An id of plain names has no brackets. -/
theorem IsPlain.not_mem_id (h : node.IsPlain) :
    '[' ∉ (node.kind.nodeId node.name node.resourceType).toList := by
  have hname := not_mem_of_isIdentifier h.identifier_name (c := '[') (by decide)
  have hroot : '[' ∉ node.kind.root.toList := by
    cases node.kind <;> decide
  rw [Kind.nodeId]
  split
  · next htyped =>
    have htype := not_mem_of_isIdentifier (h.identifier_type htyped) (c := '[') (by decide)
    simp [hroot, htype, hname]
  · simp [hroot, hname]

end Node

namespace Reference

/-! ## Candidates -/

/-- What is left of an expression without white space around it and without indices. -/
def addressOf (expression : String) : String :=
  String.ofList (withoutIndices (strip expression.toList))

theorem withoutIndices_append {cs : List Char} (h : '[' ∉ cs) (rest : List Char) :
    withoutIndices (cs ++ rest) = cs ++ withoutIndices rest := by
  induction cs with
  | nil => rfl
  | cons c cs ih =>
    rw [List.mem_cons, not_or] at h
    rw [List.cons_append, withoutIndices, ih h.2, List.cons_append]
    rintro rfl
    exact h.1 rfl

theorem withoutIndices_of_not_mem {cs : List Char} (h : '[' ∉ cs) : withoutIndices cs = cs := by
  have happend := withoutIndices_append h []
  rwa [withoutIndices, List.append_nil] at happend

/-- The candidates of an address that may name a block: the expression, the address, and the id that
its segments imply. -/
theorem mem_candidates {expression candidate : String} :
    candidate ∈ candidates expression ↔
      isAddress (addressOf expression).toList = true ∧
      (splitAt '.' (addressOf expression)).headD "" ∉ outerRoots ∧
      (candidate = trimmed expression ∨ candidate = addressOf expression ∨
        candidate ∈ implied (splitAt '.' (addressOf expression))) := by
  have hparts : (segments '.' (addressOf expression).toList).map String.ofList
      = splitAt '.' (addressOf expression) := rfl
  have haddress : withoutIndices (strip expression.toList) = (addressOf expression).toList := by
    rw [addressOf, String.toList_ofList]
  rw [candidates]
  simp only [haddress, String.ofList_toList, hparts]
  by_cases hvalid : isAddress (addressOf expression).toList = true
  · by_cases houter : (splitAt '.' (addressOf expression)).headD "" ∈ outerRoots
    · rw [if_pos hvalid, if_pos (List.contains_iff_mem.2 houter)]
      exact ⟨fun h => absurd h List.not_mem_nil, fun h => absurd houter h.2.1⟩
    · rw [if_pos hvalid, if_neg (by rwa [List.contains_iff_mem]), List.mem_eraseDups]
      simp only [List.mem_append, List.mem_cons, List.not_mem_nil, or_false, or_assoc]
      exact ⟨fun h => ⟨hvalid, houter, h⟩, fun h => h.2.2⟩
  · rw [if_neg hvalid]
    exact ⟨fun h => absurd h List.not_mem_nil, fun h => absurd h.1 hvalid⟩

/-- An implied id has leading segments of the address for its own, or is that of a resource whose
type and name they are. -/
theorem mem_implied {parts : List String} {candidate : String} (h : candidate ∈ implied parts) :
    (∃ path, path ≠ [] ∧ path <+: parts ∧ candidate = join "." path) ∨
      ∃ type name, [type, name] <+: parts ∧ candidate = join "." ["resource", type, name] := by
  unfold implied at h
  split at h
  · next root second rest =>
    split at h
    · split at h
      · next third others =>
        left
        refine ⟨[root, second, third], List.cons_ne_nil _ _, ⟨others, rfl⟩, ?_⟩
        simpa [join, String.append_assoc] using h
      · cases h
    · split at h
      · left
        refine ⟨[root, second], List.cons_ne_nil _ _, ⟨rest, rfl⟩, ?_⟩
        simpa [join, String.append_assoc] using h
      · right
        refine ⟨root, second, ⟨rest, rfl⟩, ?_⟩
        simpa [join, String.append_assoc] using h
  · cases h

variable {d : Diagram}

/-- A node whose id is that of a resource is a resource. -/
theorem eq_of_path_eq {node : Node} {type name : String}
    (h : node.path = ["resource", type, name]) :
    node.kind = .resource ∧ Kind.nameText node.resourceType = type ∧
      Kind.nameText node.name = name := by
  rw [Node.path] at h
  cases hkind : node.kind <;> simp_all [Kind.isTyped, Kind.root, Kind.key]

/-- A candidate that is a node is named by the address. -/
theorem isNamedBy_of_mem_candidates (hd : d.HasPlainNames) {expression id : String} {node : Node}
    (hid : id ∈ candidates expression) (hnode : d.nodes.get? id = some node) :
    node.IsNamedBy id (splitAt '.' (addressOf expression)) := by
  have hplain := hd.node id node hnode
  have hid_eq := hd.id_eq id node hnode
  obtain ⟨-, -, rfl | rfl | himplied⟩ := mem_candidates.1 hid
  · have hbrackets : '[' ∉ (trimmed expression).toList := by
      rw [hid_eq]
      exact hplain.not_mem_id
    have hsame : addressOf expression = trimmed expression := by
      rw [trimmed, String.toList_ofList] at hbrackets
      rw [addressOf, withoutIndices_of_not_mem hbrackets, trimmed]
    rw [hsame]
    exact .inl (List.prefix_refl _)
  · exact .inl (List.prefix_refl _)
  · have hdots : ∀ path : List String, path <+: splitAt '.' (addressOf expression) →
        ∀ piece ∈ path, '.' ∉ piece.toList :=
      fun path hpath piece hpiece => not_mem_of_mem_splitAt (hpath.subset hpiece)
    rcases mem_implied himplied with ⟨path, hne, hpath, rfl⟩ | ⟨type, name, hparts, rfl⟩
    · left
      rwa [show "." = String.singleton '.' from rfl, splitAt_join hne (hdots path hpath)]
    · right
      have hpieces : ∀ piece ∈ ["resource", type, name], '.' ∉ piece.toList := by
        intro piece hpiece
        rcases List.mem_cons.1 hpiece with rfl | hpiece
        · decide
        · exact hdots _ hparts piece hpiece
      have hpath : node.path = ["resource", type, name] := by
        rw [← hplain.splitAt_id, ← hid_eq]
        exact splitAt_join (List.cons_ne_nil _ _) hpieces
      obtain ⟨hkind, htype, hname⟩ := eq_of_path_eq hpath
      rw [htype, hname]
      exact ⟨hkind, hparts⟩

/-- What an address that begins with a node's id, or with a resource's type and name, implies. -/
theorem mem_implied_of_isNamedBy {node : Node} {id : String} {parts : List String}
    (hplain : node.IsPlain) (hid : id = node.kind.nodeId node.name node.resourceType)
    (h : node.IsNamedBy id parts) : id ∈ implied parts ∧ parts.headD "" ∉ outerRoots := by
  subst hid
  rcases h with h | ⟨hkind, h⟩
  · rw [hplain.splitAt_id, Node.path] at h
    -- As many segments are taken for an id as its root says, so each kind is looked at.
    cases hkind : node.kind <;> simp only [hkind] at h <;> obtain ⟨rest, rfl⟩ := h <;>
      simp [implied, Kind.nodeId, Kind.isTyped, Kind.root, Kind.key, outerRoots,
        String.append_assoc]
  · obtain ⟨type, htype, -⟩ := hplain.type (by rw [hkind]; rfl)
    obtain ⟨hroot, houter⟩ := hplain.root hkind type htype
    obtain ⟨rest, rfl⟩ := h
    rw [htype]
    simp only [idRoots, List.mem_cons, List.not_mem_nil, or_false, not_or] at hroot
    simp [implied, hkind, Kind.nodeId, Kind.isTyped, Kind.root, Kind.key, Kind.nameText, hroot,
      houter, String.append_assoc]

theorem mem_candidates_of_isNamedBy (hd : d.HasPlainNames) {expression id : String} {node : Node}
    (haddress : isAddress (addressOf expression).toList = true)
    (hnode : d.nodes.get? id = some node)
    (hnamed : node.IsNamedBy id (splitAt '.' (addressOf expression))) :
    id ∈ candidates expression := by
  obtain ⟨himplied, houter⟩ :=
    mem_implied_of_isNamedBy (hd.node id node hnode) (hd.id_eq id node hnode) hnamed
  exact mem_candidates.2 ⟨haddress, houter, .inr (.inr himplied)⟩

/-! ## One node at most -/

theorem root_path (node : Node) : node.path.head? = some node.kind.root := by
  rw [Node.path]
  split <;> rfl

theorem root_mem_idRoots (kind : Kind) : kind.root ∈ idRoots := by
  cases kind <;> decide

/-- The root of an id is that of its kind, so as many segments count for nodes with the same root.
-/
theorem path_eq_of_prefix {node node' : Node} {parts : List String} (h : node.path <+: parts)
    (h' : node'.path <+: parts) : node.path = node'.path := by
  have hroots : node.kind.root = node'.kind.root := by
    have hhead : ∀ {path : List String}, path <+: parts → path ≠ [] → path.head? = parts.head? := by
      rintro path ⟨rest, rfl⟩ hne
      exact (List.head?_append_of_ne_nil path hne).symm
    have hfirst := (hhead h node.path_ne_nil).trans (hhead h' node'.path_ne_nil).symm
    rw [root_path, root_path] at hfirst
    exact Option.some.inj hfirst
  have hlength : node.path.length = node'.path.length := by
    have hkind : node.kind = node'.kind := by
      revert hroots
      cases node.kind <;> cases node'.kind <;> decide
    rw [Node.path, Node.path, hkind]
    split <;> rfl
  exact (List.prefix_of_prefix_length_le h h' hlength.le).eq_of_length hlength

/-- The type of a plain resource is not where an id begins. -/
theorem not_path_prefix_of_type {node node' : Node} {parts : List String} (hplain : node.IsPlain)
    (hkind : node.kind = .resource)
    (h : [Kind.nameText node.resourceType, Kind.nameText node.name] <+: parts) :
    ¬ node'.path <+: parts := by
  intro h'
  obtain ⟨type, htype, -⟩ := hplain.type (by rw [hkind]; rfl)
  obtain ⟨rest, rfl⟩ := h
  have hroot : node'.kind.root = type := by
    obtain ⟨rest', hrest⟩ := h'
    have hfirst := congrArg List.head? hrest
    rw [List.head?_append_of_ne_nil _ node'.path_ne_nil, root_path, htype] at hfirst
    exact Option.some.inj hfirst
  exact (hplain.root hkind type htype).1 (hroot ▸ root_mem_idRoots node'.kind)

/-- An address names one node at most. -/
theorem IsNamedBy.unique (hd : d.HasPlainNames) {id id' : String} {node node' : Node}
    {parts : List String} (hnode : d.nodes.get? id = some node)
    (hnode' : d.nodes.get? id' = some node') (h : node.IsNamedBy id parts)
    (h' : node'.IsNamedBy id' parts) : id = id' := by
  have hplain := hd.node id node hnode
  have hplain' := hd.node id' node' hnode'
  have hid := hd.id_eq id node hnode
  have hid' := hd.id_eq id' node' hnode'
  rw [Node.IsNamedBy, hid, hplain.splitAt_id] at h
  rw [Node.IsNamedBy, hid', hplain'.splitAt_id] at h'
  rcases h with h | ⟨hkind, h⟩
  · rcases h' with h' | ⟨hkind', h'⟩
    · rw [hid, hid', ← node.join_path, ← node'.join_path, path_eq_of_prefix h h']
    · exact absurd h (not_path_prefix_of_type hplain' hkind' h')
  · rcases h' with h' | ⟨hkind', h'⟩
    · exact absurd h' (not_path_prefix_of_type hplain hkind h)
    · have hsame := (List.prefix_of_prefix_length_le h h' (Nat.le_refl _)).eq_of_length rfl
      obtain ⟨htype, hname⟩ := List.cons.inj hsame
      rw [hid, hid', Kind.nodeId, Kind.nodeId, hkind, hkind', htype, (List.cons.inj hname).1]

/-! ## Resolving -/

theorem find?_eq_some_of_unique {α : Type} {p : α → Bool} {xs : List α} {a : α} (ha : a ∈ xs)
    (hp : p a = true) (hunique : ∀ b ∈ xs, p b = true → b = a) : xs.find? p = some a := by
  obtain ⟨b, hb⟩ := Option.isSome_iff_exists.1 (List.find?_isSome.2 ⟨a, ha, hp⟩)
  rw [hb, hunique b (List.mem_of_find?_eq_some hb) (List.find?_some hb)]

theorem candidate_unique (hd : d.HasPlainNames) {expression id id' : String}
    (hid : id ∈ candidates expression) (hid' : id' ∈ candidates expression)
    (hnode : d.hasNode id = true) (hnode' : d.hasNode id' = true) : id = id' := by
  obtain ⟨node, hnode⟩ := Option.isSome_iff_exists.1 hnode
  obtain ⟨node', hnode'⟩ := Option.isSome_iff_exists.1 hnode'
  exact IsNamedBy.unique hd hnode hnode' (isNamedBy_of_mem_candidates hd hid hnode)
    (isNamedBy_of_mem_candidates hd hid' hnode')

/-- The first candidate that is a node is the node that the address names. -/
theorem resolve?_candidates_iff (hd : d.HasPlainNames) {expression id : String} :
    Configuration.resolve? d.nodes (candidates expression) = some id ↔
      isAddress (addressOf expression).toList = true ∧
      ∃ node, d.nodes.get? id = some node ∧
        node.IsNamedBy id (splitAt '.' (addressOf expression)) := by
  constructor
  · intro h
    have hmem := List.mem_of_find?_eq_some h
    obtain ⟨node, hnode⟩ := Option.isSome_iff_exists.1 (Configuration.has_of_resolve? h)
    exact ⟨(mem_candidates.1 hmem).1, node, hnode, isNamedBy_of_mem_candidates hd hmem hnode⟩
  · rintro ⟨haddress, node, hnode, hnamed⟩
    have hmem := mem_candidates_of_isNamedBy hd haddress hnode hnamed
    have hhas : d.hasNode id = true := Option.isSome_iff_exists.2 ⟨node, hnode⟩
    exact find?_eq_some_of_unique hmem hhas fun other hother hhas' =>
      candidate_unique hd hother hmem hhas' hhas

end Reference

end BlockDiagram
