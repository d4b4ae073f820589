import BlockDiagram.Edit
import BlockDiagram.Outcome
import BlockDiagram.Polish
import BlockDiagram.Proofs.Diagram.EdgeId

/-!
# Well-formed diagrams

In a well-formed diagram every node and every edge is stored under its own id, the id of a node is
made of its kind, type and name, and edges join nodes. Edits and polishing keep diagrams so: most
of them leave the skeleton of a diagram as it is, which is all that well-formedness is about.

* `WellFormed.of_skeleton_eq`: a diagram with the skeleton of a well-formed one is well-formed.
* `skeleton_laidOut`, `skeleton_relabelled`: what layout and polishing leave alone.
* `WellFormed.appendNode`, `WellFormed.removeNode`, `WellFormed.addEdge`, `WellFormed.removeEdge`:
  the edits that change the skeleton.
-/

namespace BlockDiagram

open Outcome

/-- The id of a node is made of its kind, type and name, and only kinds with types have one. -/
structure Node.WellFormed (node : Node) : Prop where
  id_eq : node.id = node.kind.nodeId node.name node.resourceType
  untyped : node.kind.isTyped = false → node.resourceType = none

/-- Nodes and edges are stored under their own ids, and edges join nodes. An edge has no key beside
its id, so it is stored under its own id when no other edge has the same one. -/
structure Diagram.WellFormed (d : Diagram) : Prop where
  keys_nodup : d.nodes.keys.Nodup
  id_eq_key : ∀ key node, (key, node) ∈ d.nodes → node.id = key
  node : ∀ key node, (key, node) ∈ d.nodes → node.WellFormed
  edgeIds_nodup : (d.edges.map Edge.id).Nodup
  edgeId_text : ∀ e ∈ d.edges, ∃ s, e.id = .text s
  source : ∀ e ∈ d.edges, d.hasNode e.source = true
  target : ∀ e ∈ d.edges, d.hasNode e.target = true

/-! ## Skeletons -/

/-- What the id of a node is made of, and the id. -/
def Node.identity (node : Node) : String × Kind × Option String × Option String :=
  (node.id, node.kind, node.name, node.resourceType)

/-- The id and the ends of an edge. -/
def Edge.identity (edge : Edge) : Value × String × String := (edge.id, edge.source, edge.target)

namespace Diagram

/-- The identities of a diagram's nodes under their keys, and those of its edges. -/
def skeleton (d : Diagram) :
    Table (String × Kind × Option String × Option String) × List (Value × String × String) :=
  (d.nodes.map fun entry => (entry.1, entry.2.identity), d.edges.map Edge.identity)

theorem keys_of_skeleton_eq {d d' : Diagram} (h : d'.skeleton = d.skeleton) :
    d'.nodes.keys = d.nodes.keys := by
  have hnodes := congrArg (fun s => Table.keys s.1) h
  simpa only [skeleton, Table.keys_map] using hnodes

theorem hasNode_of_skeleton_eq {d d' : Diagram} (h : d'.skeleton = d.skeleton) (id : String) :
    d'.hasNode id = d.hasNode id := by
  rw [Bool.eq_iff_iff, hasNode, hasNode, ← Table.mem_keys_iff, ← Table.mem_keys_iff,
    keys_of_skeleton_eq h]

theorem exists_node_of_skeleton_eq {d d' : Diagram} (h : d'.skeleton = d.skeleton)
    {key : String} {node : Node} (hnode : (key, node) ∈ d'.nodes) :
    ∃ old, (key, old) ∈ d.nodes ∧ old.identity = node.identity := by
  have hmem : (key, node.identity) ∈ d'.skeleton.1 := List.mem_map.2 ⟨_, hnode, rfl⟩
  rw [h] at hmem
  obtain ⟨⟨k, old⟩, hold, heq⟩ := List.mem_map.1 hmem
  simp only [Prod.mk.injEq] at heq
  exact ⟨old, heq.1 ▸ hold, heq.2⟩

theorem exists_edge_of_skeleton_eq {d d' : Diagram} (h : d'.skeleton = d.skeleton)
    {e : Edge} (he : e ∈ d'.edges) :
    ∃ old ∈ d.edges, old.identity = e.identity := by
  have hmem : e.identity ∈ d'.skeleton.2 := List.mem_map_of_mem he
  rw [h] at hmem
  exact List.mem_map.1 hmem

/-- Well-formedness is a matter of the skeleton alone. -/
theorem WellFormed.of_skeleton_eq {d d' : Diagram} (hd : d.WellFormed)
    (h : d'.skeleton = d.skeleton) : d'.WellFormed where
  keys_nodup := by
    rw [keys_of_skeleton_eq h]
    exact hd.keys_nodup
  id_eq_key key node hnode := by
    obtain ⟨old, hold, heq⟩ := exists_node_of_skeleton_eq h hnode
    simp only [Node.identity, Prod.mk.injEq] at heq
    rw [← heq.1]
    exact hd.id_eq_key key old hold
  node key node hnode := by
    obtain ⟨old, hold, heq⟩ := exists_node_of_skeleton_eq h hnode
    simp only [Node.identity, Prod.mk.injEq] at heq
    obtain ⟨hid, hkind, hname, htype⟩ := heq
    have hwf := hd.node key old hold
    constructor
    · rw [← hid, ← hkind, ← hname, ← htype]
      exact hwf.id_eq
    · rw [← hkind, ← htype]
      exact hwf.untyped
  edgeIds_nodup := by
    have hedges : d'.edges.map Edge.id = d.edges.map Edge.id := by
      have hids := congrArg (fun s => s.2.map Prod.fst) h
      simpa only [skeleton, List.map_map, Function.comp_def, Edge.identity] using hids
    rw [hedges]
    exact hd.edgeIds_nodup
  edgeId_text e he := by
    obtain ⟨old, hold, heq⟩ := exists_edge_of_skeleton_eq h he
    simp only [Edge.identity, Prod.mk.injEq] at heq
    rw [← heq.1]
    exact hd.edgeId_text old hold
  source e he := by
    obtain ⟨old, hold, heq⟩ := exists_edge_of_skeleton_eq h he
    simp only [Edge.identity, Prod.mk.injEq] at heq
    rw [hasNode_of_skeleton_eq h, ← heq.2.1]
    exact hd.source old hold
  target e he := by
    obtain ⟨old, hold, heq⟩ := exists_edge_of_skeleton_eq h he
    simp only [Edge.identity, Prod.mk.injEq] at heq
    rw [hasNode_of_skeleton_eq h, ← heq.2.2]
    exact hd.target old hold

/-! ## Changes that leave the skeleton -/

theorem skeleton_laidOut {d d' : Diagram} {options : Options} (h : d.laidOut options = .ok d') :
    d'.skeleton = d.skeleton := by
  unfold laidOut at h
  split at h
  · next drawing _ =>
    cases h
    have hmoved : ∀ id node, (moved drawing.centres id node).identity = node.identity := by
      intro id node
      unfold moved
      split <;> rfl
    simp only [skeleton, placed, List.map_map, Function.comp_def, hmoved]
  · cases h

theorem skeleton_takeNodeSuggestion (d : Diagram) (suggestion : Value) :
    (d.takeNodeSuggestion suggestion).skeleton = d.skeleton := by
  have hrelabel : ∀ (key : String) (node : Node),
      (if key = suggestionId suggestion then relabelNode suggestion node else node).identity
        = node.identity := by
    intro key node
    split <;> rfl
  simp only [skeleton, takeNodeSuggestion, List.map_map, Function.comp_def, hrelabel]

theorem skeleton_takeEdgeSuggestion (d : Diagram) (suggestion : Value) :
    (d.takeEdgeSuggestion suggestion).skeleton = d.skeleton := by
  have hrelabel : ∀ edge : Edge,
      (if edge.id.isText (suggestionId suggestion) then relabelEdge suggestion edge
        else edge).identity = edge.identity := by
    intro edge
    split <;> rfl
  simp only [skeleton, takeEdgeSuggestion, List.map_map, Function.comp_def, hrelabel]

/-- What taking over one suggestion keeps, an answer keeps. -/
theorem relabelled_induction {P : Diagram → Prop}
    (hnode : ∀ d suggestion, P d → P (d.takeNodeSuggestion suggestion))
    (hedge : ∀ d suggestion, P d → P (d.takeEdgeSuggestion suggestion)) {d : Diagram} (hd : P d)
    (answer : Table Value) : P (d.relabelled answer) := by
  have hfold : ∀ (take : Diagram → Value → Diagram), (∀ d suggestion, P d → P (take d suggestion)) →
      ∀ (given : List Value) (d : Diagram), P d → P (given.foldl take d) := by
    intro take htake given
    induction given with
    | nil => exact fun _ hd => hd
    | cons suggestion given ih => exact fun d hd => ih _ (htake d suggestion hd)
  exact hfold _ hedge _ _ (hfold _ hnode _ _ hd)

theorem skeleton_relabelled (d : Diagram) (answer : Table Value) :
    (d.relabelled answer).skeleton = d.skeleton :=
  relabelled_induction (P := fun d' => d'.skeleton = d.skeleton)
    (fun d' suggestion h => (skeleton_takeNodeSuggestion d' suggestion).trans h)
    (fun d' suggestion h => (skeleton_takeEdgeSuggestion d' suggestion).trans h) rfl answer

theorem WellFormed.laidOut {d d' : Diagram} {options : Options} (hd : d.WellFormed)
    (h : d.laidOut options = .ok d') : d'.WellFormed :=
  hd.of_skeleton_eq (skeleton_laidOut h)

theorem nodeAt_eq_ok {d : Diagram} {id : Value} {key : String} {node : Node}
    (h : d.nodeAt id = .ok (key, node)) : id = .text key ∧ d.nodes.get? key = some node := by
  unfold nodeAt at h
  split at h
  · split at h
    · next text found hfound =>
      cases h
      exact ⟨rfl, hfound⟩
    · cases h
  · cases h

theorem skeleton_putNode {d : Diagram} {key : String} {old new : Node}
    (hold : d.nodes.get? key = some old) (hid : new.identity = old.identity) :
    (d.putNode key new).skeleton = d.skeleton := by
  have hput := Table.map_put_of_get? (f := Node.identity) hold hid
  simp only [skeleton, putNode, hput]

theorem skeleton_withNodeChanged {d d' : Diagram} {id payload : Value} {relayout : Bool}
    (h : d.withNodeChanged id payload relayout = .ok d') : d'.skeleton = d.skeleton := by
  obtain ⟨⟨key, node⟩, hnode, h⟩ := bind_eq_ok.1 h
  obtain ⟨changes, -, h⟩ := bind_eq_ok.1 h
  have hput : (d.putNode key (patchNode node changes)).skeleton = d.skeleton :=
    skeleton_putNode (nodeAt_eq_ok hnode).2 rfl
  dsimp only at h
  split at h
  · cases h
    exact hput
  · exact (skeleton_laidOut h).trans hput

theorem mem_edges_of_resolve {d : Diagram} {ref : Value} {edge : Edge}
    (h : d.resolve ref = .ok edge) : edge ∈ d.edges := by
  unfold resolve at h
  split at h
  · next found hfound =>
    cases h
    exact List.mem_of_find?_eq_some hfound
  · split at h
    · unfold resolvePair at h
      split at h
      · next source target _ =>
        have hbetween : ∀ e ∈ d.edgesBetween source target, e ∈ d.edges :=
          fun e he => List.mem_of_mem_filter he
        split at h
        · cases h
        · next only hsingle =>
          cases h
          exact hbetween _ (hsingle ▸ List.mem_singleton_self _)
        · cases h
      · cases h
    · cases h

theorem identity_patchEdge {edge changed : Edge} {payload : Value}
    (h : patchEdge edge payload = .ok changed) : changed.identity = edge.identity := by
  unfold patchEdge at h
  obtain ⟨p, -, h⟩ := bind_eq_ok.1 h
  obtain ⟨-, -, h⟩ := bind_eq_ok.1 h
  obtain ⟨-, -, h⟩ := bind_eq_ok.1 h
  split at h
  · cases h
  · dsimp only at h
    split at h
    · cases h
    · split at h
      all_goals
        obtain ⟨type, -, h⟩ := bind_eq_ok.1 h
        cases h
        rfl

theorem WellFormed.identity_eq_of_isSameEdge {d : Diagram} (hd : d.WellFormed) {e f : Edge}
    (hf : f ∈ d.edges) (h : isSameEdge e f = true) : e.identity = f.identity := by
  obtain ⟨s, hs⟩ := hd.edgeId_text f hf
  simp only [isSameEdge, Edge.joins, Bool.and_eq_true, beq_iff_eq, hs,
    Value.identical_text_iff] at h
  simp only [Edge.identity, Prod.mk.injEq]
  exact ⟨h.1.trans hs.symm, h.2.1, h.2.2⟩

theorem WellFormed.skeleton_withEdgeChanged {d d' : Diagram} {ref payload : Value}
    (hd : d.WellFormed) (h : d.withEdgeChanged ref payload = .ok d') :
    d'.skeleton = d.skeleton := by
  obtain ⟨edge, hedge, h⟩ := bind_eq_ok.1 h
  obtain ⟨changed, hchanged, h⟩ := bind_eq_ok.1 h
  rw [skeleton_laidOut h]
  have hsame : ∀ other : Edge,
      (if isSameEdge other edge then changed else other).identity = other.identity := by
    intro other
    split
    · next same =>
      rw [identity_patchEdge hchanged]
      exact (hd.identity_eq_of_isSameEdge (mem_edges_of_resolve hedge) same).symm
    · rfl
  simp only [skeleton, List.map_map, Function.comp_def, hsame]

/-! ## Changes of the skeleton -/

theorem wellFormed_of_node {payload : Value} {node : Node} (h : Payload.node payload = .ok node) :
    node.WellFormed := by
  unfold Payload.node at h
  obtain ⟨p, -, h⟩ := bind_eq_ok.1 h
  obtain ⟨kind, -, h⟩ := bind_eq_ok.1 h
  obtain ⟨name, -, h⟩ := bind_eq_ok.1 h
  obtain ⟨type, htype, h⟩ := bind_eq_ok.1 h
  have huntyped : kind.isTyped = false → type = none := by
    intro hkind
    simp only [Payload.nodeType, hkind, Bool.false_eq_true, if_false] at htype
    cases htype
    rfl
  dsimp only at h
  split at h
  · cases h
  · split at h
    · cases h
    · obtain ⟨-, -, h⟩ := bind_eq_ok.1 h
      obtain ⟨-, -, h⟩ := bind_eq_ok.1 h
      obtain ⟨-, -, h⟩ := bind_eq_ok.1 h
      obtain ⟨-, -, h⟩ := bind_eq_ok.1 h
      cases h
      exact ⟨rfl, huntyped⟩

theorem WellFormed.appendNode {d d' : Diagram} {payload : Value} (hd : d.WellFormed)
    (h : d.appendNode payload = .ok d') : d'.WellFormed := by
  obtain ⟨node, hnode, h⟩ := bind_eq_ok.1 h
  have hwf := wellFormed_of_node hnode
  dsimp only at h
  split at h
  · cases h
  · cases h
    have hkept : ∀ id, d.hasNode id = true → (d.putNode node.id node).hasNode id = true :=
      fun id hid => (Table.has_put d.nodes node.id id node).2 (.inr hid)
    refine ⟨Table.nodup_keys_put hd.keys_nodup _ _, ?_, ?_, hd.edgeIds_nodup, hd.edgeId_text,
      fun e he => hkept _ (hd.source e he), fun e he => hkept _ (hd.target e he)⟩
    · intro key other hother
      rcases Table.mem_put hother with heq | hold
      · cases heq
        rfl
      · exact hd.id_eq_key key other hold
    · intro key other hother
      rcases Table.mem_put hother with heq | hold
      · cases heq
        exact hwf
      · exact hd.node key other hold

theorem WellFormed.removeNode {d : Diagram} (hd : d.WellFormed) (id : String) :
    (d.removeNode id).WellFormed := by
  have hnodes : ∀ entry ∈ (d.removeNode id).nodes, entry ∈ d.nodes :=
    fun entry hentry => List.mem_of_mem_filter hentry
  have hedges : ∀ e ∈ (d.removeNode id).edges, e ∈ d.edges ∧ e.source ≠ id ∧ e.target ≠ id := by
    intro e he
    obtain ⟨he, htouches⟩ := List.mem_filter.1 he
    simp only [Edge.touches, Bool.not_eq_true', Bool.or_eq_false_iff, beq_eq_false_iff_ne]
      at htouches
    exact ⟨he, htouches⟩
  have hkept : ∀ other, other ≠ id → d.hasNode other = true →
      (d.removeNode id).hasNode other = true :=
    fun other hne hother => (Table.has_erase d.nodes id other).2 ⟨hne, hother⟩
  refine ⟨Table.nodup_keys_erase hd.keys_nodup _, ?_, ?_, ?_, ?_, ?_, ?_⟩
  · exact fun key node hnode => hd.id_eq_key key node (hnodes _ hnode)
  · exact fun key node hnode => hd.node key node (hnodes _ hnode)
  · exact hd.edgeIds_nodup.sublist (List.filter_sublist.map _)
  · exact fun e he => hd.edgeId_text e (hedges e he).1
  · exact fun e he => hkept _ (hedges e he).2.1 (hd.source e (hedges e he).1)
  · exact fun e he => hkept _ (hedges e he).2.2 (hd.target e (hedges e he).1)

theorem WellFormed.addEdge {d : Diagram} (hd : d.WellFormed) {source target : String}
    (hsource : d.hasNode source = true) (htarget : d.hasNode target = true) (type : EdgeType)
    (label verb : Value) : (d.addEdge source target type label verb).WellFormed := by
  have hmem : ∀ e ∈ (d.addEdge source target type label verb).edges,
      e ∈ d.edges ∨ e = d.newEdge source target type label verb := by
    intro e he
    rcases List.mem_append.1 he with he | he
    · exact .inl he
    · exact .inr (List.mem_singleton.1 he)
  refine ⟨hd.keys_nodup, hd.id_eq_key, hd.node, ?_, ?_, ?_, ?_⟩
  · simp only [Diagram.addEdge, List.map_append, List.map_cons, List.map_nil]
    refine List.nodup_append.2 ⟨hd.edgeIds_nodup, List.nodup_singleton _, ?_⟩
    intro id hid other hother heq
    rw [List.mem_singleton.1 hother] at heq
    obtain ⟨e, he, hid⟩ := List.mem_map.1 hid
    have htaken := hasEdge_text_iff.2 ⟨e, he, hid.trans heq⟩
    rw [hasEdge_freshEdgeId] at htaken
    cases htaken
  · intro e he
    rcases hmem e he with he | rfl
    · exact hd.edgeId_text e he
    · exact ⟨_, rfl⟩
  · intro e he
    rcases hmem e he with he | rfl
    · exact hd.source e he
    · exact hsource
  · intro e he
    rcases hmem e he with he | rfl
    · exact hd.target e he
    · exact htarget

theorem WellFormed.appendEdge {d d' : Diagram} {payload : Value} (hd : d.WellFormed)
    (h : d.appendEdge payload = .ok d') : d'.WellFormed := by
  have hchecked : ∀ {role : Endpoint} {id : String} {u : Unit},
      d.checkEndpoint role id = .ok u → d.hasNode id = true := by
    intro role id u hid
    unfold checkEndpoint at hid
    split at hid
    · assumption
    · cases hid
  obtain ⟨p, -, h⟩ := bind_eq_ok.1 h
  obtain ⟨source, -, h⟩ := bind_eq_ok.1 h
  obtain ⟨target, -, h⟩ := bind_eq_ok.1 h
  obtain ⟨_, hsource, h⟩ := bind_eq_ok.1 h
  obtain ⟨_, htarget, h⟩ := bind_eq_ok.1 h
  obtain ⟨type, -, h⟩ := bind_eq_ok.1 h
  cases h
  exact hd.addEdge (hchecked hsource) (hchecked htarget) type _ _

theorem WellFormed.removeEdge {d : Diagram} (hd : d.WellFormed) (edge : Edge) :
    (d.removeEdge edge).WellFormed :=
  ⟨hd.keys_nodup, hd.id_eq_key, hd.node, hd.edgeIds_nodup.sublist (List.filter_sublist.map _),
    fun e he => hd.edgeId_text e (List.mem_of_mem_filter he),
    fun e he => hd.source e (List.mem_of_mem_filter he),
    fun e he => hd.target e (List.mem_of_mem_filter he)⟩

end Diagram

end BlockDiagram
