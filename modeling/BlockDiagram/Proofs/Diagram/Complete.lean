import BlockDiagram.Proofs.Configuration.WellFormed
import BlockDiagram.Proofs.Diagram.WellFormed

/-!
# Complete diagrams

What a diagram holds is unchecked by its type. In a complete one every node has a name, a label, a
record of attributes, coordinates that are numbers and sizes that are not at most zero, every edge
has an id that counts as given, and the bounds are whole. New diagrams are complete, and edits and
polishing keep them so.

* `Payload.exists_of_node`, `Diagram.checked_of_nodePatch`: what the checks of a payload let
  through.
* `Node.isComplete_of_node`, `Diagram.isComplete_patchNode`: nodes that are new or changed.
* `IsComplete.laidOut`, `IsComplete.appendNode`, `IsComplete.withNodeChanged`,
  `IsComplete.removeNode`, `IsComplete.appendEdge`, `IsComplete.withEdgeChanged`,
  `IsComplete.removeEdge`, `IsComplete.relabelled`: what keeps a diagram complete.
* `Configuration.isComplete_diagram`: the diagram of a configuration.
-/

namespace BlockDiagram

open Outcome

/-- A number that is not at most zero. -/
structure Value.IsSize (value : Value) : Prop where
  isNumber : value.isNumber = true
  positive : Payload.isAtMostZero value = false

/-- A node with everything that a block is drawn and written with. -/
structure Node.IsComplete (node : Node) : Prop where
  name : ∃ name, node.name = some name
  type : node.kind.isTyped = true → ∃ type, node.resourceType = some type
  label : node.label.isTruthy = true
  config : node.config.isRecord = true
  x : node.x.isNumber = true
  y : node.y.isNumber = true
  width : node.width.IsSize
  height : node.height.IsSize

/-- All nodes are complete, all edges have ids that count as given, and the bounds are whole. -/
structure Diagram.IsComplete (d : Diagram) : Prop where
  node : ∀ key node, (key, node) ∈ d.nodes → node.IsComplete
  edge : ∀ e ∈ d.edges, e.id.isTruthy = true
  width : ∃ n, d.width = .int n
  height : ∃ n, d.height = .int n

/-! ## Values -/

namespace Value

theorem orElse_of_isTruthy {value : Value} (h : value.isTruthy = true) (other : Value) :
    value.orElse other = value := by
  rw [orElse, if_pos h]

theorem isSize_int {n : Int} (h : 0 < n) : (int n).IsSize := by
  refine ⟨rfl, ?_⟩
  simp only [Payload.isAtMostZero, number?, Number.lt, Number.eq, Bool.or_eq_false_iff,
    decide_eq_false_iff_not]
  omega

/-- A size counts as given. -/
theorem isTruthy_of_isSize {value : Value} (h : value.IsSize) : value.isTruthy = true := by
  obtain ⟨hnumber, hpositive⟩ := h
  cases value with
  | int n =>
    simp only [Payload.isAtMostZero, number?, Number.lt, Number.eq, Bool.or_eq_false_iff,
      decide_eq_false_iff_not] at hpositive
    simp only [isTruthy, bne_iff_ne]
    omega
  | float x =>
    cases x with
    | rational q =>
      simp only [Payload.isAtMostZero, number?, Number.lt, Number.eq, Binary64.isFinite,
        Binary64.value, Bool.or_eq_false_iff, Bool.true_and, Rat.intCast_zero] at hpositive
      have hne : ¬ q = 0 := of_decide_eq_false hpositive.2
      simp only [isTruthy, Binary64.isZero, hne, decide_false, Bool.not_false]
    | negativeZero => cases hpositive
    | nan => rfl
    | infinity negative => rfl
  | _ => cases hnumber

theorem isSize_orElse {value other : Value} (hother : other.IsSize)
    (h : value.isNull = true ∨ value.IsSize) : (value.orElse other).IsSize := by
  rcases h with hnull | hsize
  · cases value <;> first | exact hother | cases hnull
  · rwa [orElse_of_isTruthy (isTruthy_of_isSize hsize)]

theorem isNumber_orElse {value other : Value} (hother : other.isNumber = true)
    (h : value.isNull = true ∨ value.isNumber = true) :
    (value.orElse other).isNumber = true := by
  rcases h with hnull | hnumber
  · cases value <;> first | exact hother | cases hnull
  · rw [orElse]
    split
    · exact hnumber
    · exact hother

end Value

/-! ## Payloads -/

namespace Payload

theorem checkNumber_eq_ok {p : Payload} {key : String} {u : Unit} (h : p.checkNumber key = .ok u) :
    (p.entry key).isNull = true ∨ (p.entry key).isNumber = true := by
  rw [checkNumber] at h
  split at h
  · next hentry => exact Bool.or_eq_true_iff.1 hentry
  · cases h

theorem checkSize_eq_ok {p : Payload} {key : String} {u : Unit} (h : p.checkSize key = .ok u) :
    (p.entry key).isNull = true ∨ (p.entry key).IsSize := by
  obtain ⟨_, hnumber, h⟩ := bind_eq_ok.1 h
  refine (checkNumber_eq_ok hnumber).imp_right fun hnumber => ⟨hnumber, ?_⟩
  split at h
  · cases h
  · next hpositive => exact Bool.eq_false_iff.2 hpositive

/-- What a payload holds of which a node is made. -/
theorem exists_of_node {value : Value} {node : Node} (h : Payload.node value = .ok node) :
    ∃ (p : Payload) (kind : Kind) (name : String) (type : Option String),
      p.nodeType kind = .ok type ∧
      ((p.entry "config").orElse (.record [])).isRecord = true ∧
      ((p.entry "x").isNull = true ∨ (p.entry "x").isNumber = true) ∧
      ((p.entry "y").isNull = true ∨ (p.entry "y").isNumber = true) ∧
      ((p.entry "width").isNull = true ∨ (p.entry "width").IsSize) ∧
      ((p.entry "height").isNull = true ∨ (p.entry "height").IsSize) ∧
      node = Node.completed
        { id := kind.nodeId (some name) type
          kind := kind
          name := some name
          resourceType := type
          label := p.entry "label"
          config := (p.entry "config").orElse (.record [])
          x := (p.entry "x").orElse (.int 0)
          y := (p.entry "y").orElse (.int 0)
          width := p.entry "width"
          height := p.entry "height"
          icon := p.entry "icon" } := by
  unfold Payload.node at h
  obtain ⟨p, -, h⟩ := bind_eq_ok.1 h
  obtain ⟨kind, -, h⟩ := bind_eq_ok.1 h
  obtain ⟨name, -, h⟩ := bind_eq_ok.1 h
  obtain ⟨type, htype, h⟩ := bind_eq_ok.1 h
  dsimp only at h
  split at h
  · cases h
  split at h
  · cases h
  next hconfig =>
  obtain ⟨_, hx, h⟩ := bind_eq_ok.1 h
  obtain ⟨_, hy, h⟩ := bind_eq_ok.1 h
  obtain ⟨_, hwidth, h⟩ := bind_eq_ok.1 h
  obtain ⟨_, hheight, h⟩ := bind_eq_ok.1 h
  cases h
  exact ⟨p, kind, name, type, htype, by simpa using hconfig, checkNumber_eq_ok hx,
    checkNumber_eq_ok hy, checkSize_eq_ok hwidth, checkSize_eq_ok hheight, rfl⟩

end Payload

/-! ## Nodes -/

theorem isTruthy_defaultLabel (kind : Kind) (name type : Option String) :
    (Value.text (kind.defaultLabel name type)).isTruthy = true := by
  have hdot : ∀ first second : String, first ++ "." ++ second ≠ "" := by
    intro first second h
    have hlength := congrArg String.length h
    simp at hlength
  have hid : kind.nodeId name type ≠ "" := by
    rw [Kind.nodeId]
    split
    · exact hdot _ _
    · exact hdot _ _
  simp only [Value.isTruthy, bne_iff_ne, ne_eq]
  cases kind with
  | resource => exact hdot _ _
  | _ => exact hid

namespace Node

/-- Completing a node gives it a label and sizes. -/
theorem isComplete_completed {node : Node} (hname : ∃ name, node.name = some name)
    (htype : node.kind.isTyped = true → ∃ type, node.resourceType = some type)
    (hconfig : node.config.isRecord = true) (hx : node.x.isNumber = true)
    (hy : node.y.isNumber = true)
    (hwidth : (node.width.orElse (.int node.kind.defaultWidth)).IsSize)
    (hheight : (node.height.orElse (.int node.kind.defaultHeight)).IsSize) :
    node.completed.IsComplete := by
  refine ⟨hname, htype, ?_, hconfig, hx, hy, hwidth, hheight⟩
  rw [completed]
  dsimp only
  rw [Value.orElse]
  split
  · assumption
  · exact isTruthy_defaultLabel _ _ _

theorem isSize_default (kind : Kind) :
    (Value.int kind.defaultWidth).IsSize ∧ (Value.int kind.defaultHeight).IsSize := by
  constructor <;> refine Value.isSize_int ?_ <;> cases kind <;> decide

theorem isComplete_of_node {payload : Value} {node : Node} (h : Payload.node payload = .ok node) :
    node.IsComplete := by
  obtain ⟨p, kind, name, type, htype, hconfig, hx, hy, hwidth, hheight, rfl⟩ :=
    Payload.exists_of_node h
  have htyped : kind.isTyped = true → ∃ found, type = some found := by
    intro hkind
    rw [Payload.nodeType, if_pos hkind] at htype
    split at htype
    · cases htype
      exact ⟨_, rfl⟩
    · cases htype
  exact isComplete_completed ⟨name, rfl⟩ htyped hconfig (Value.isNumber_orElse rfl hx)
    (Value.isNumber_orElse rfl hy) (Value.isSize_orElse (isSize_default kind).1 hwidth)
    (Value.isSize_orElse (isSize_default kind).2 hheight)

end Node

namespace Diagram

/-! ## Patches -/

/-- What a patch may hold under the keys that it holds. -/
structure IsChecked (changes : Payload) : Prop where
  config : ∀ value, changes.get? "config" = some value → value.isRecord = true
  x : ∀ value, changes.get? "x" = some value → value.isNumber = true
  y : ∀ value, changes.get? "y" = some value → value.isNumber = true
  width : ∀ value, changes.get? "width" = some value → value.IsSize
  height : ∀ value, changes.get? "height" = some value → value.IsSize

theorem checkGiven_eq_ok {p : Payload} {key : String} {u : Unit} (h : checkGiven p key = .ok u)
    {value : Value} (hvalue : p.get? key = some value) : value.isNull = false := by
  rw [checkGiven] at h
  split at h
  · cases h
  · next hgiven =>
    simpa [Table.has, Payload.entry, hvalue] using hgiven

theorem entry_of_get? {p : Payload} {key : String} {value : Value} (h : p.get? key = some value) :
    p.entry key = value := by
  rw [Payload.entry, h]
  rfl

/-- What the checks of a patch let through. -/
theorem checked_of_nodePatch {node : Node} {id : String} {patch : Value} {changes : Payload}
    (h : nodePatch node id patch = .ok changes) :
    (∃ p, Payload.ofValue Payload.nodeSpellings patch = .ok p ∧
      changes = ((p.erase "id").erase "kind").erase "type") ∧ IsChecked changes := by
  obtain ⟨p, hp, h⟩ := bind_eq_ok.1 h
  dsimp only at h
  split at h
  · cases h
  obtain ⟨_, -, h⟩ := bind_eq_ok.1 h
  split at h
  · cases h
  obtain ⟨_, -, h⟩ := bind_eq_ok.1 h
  obtain ⟨_, -, h⟩ := bind_eq_ok.1 h
  split at h
  · cases h
  next hconfig =>
  obtain ⟨_, hgiven, h⟩ := bind_eq_ok.1 h
  obtain ⟨_, hx, h⟩ := bind_eq_ok.1 h
  obtain ⟨_, hy, h⟩ := bind_eq_ok.1 h
  obtain ⟨_, hwidth, h⟩ := bind_eq_ok.1 h
  obtain ⟨_, hheight, h⟩ := bind_eq_ok.1 h
  obtain ⟨_, hgivenX, hgiven⟩ := bind_eq_ok.1 hgiven
  obtain ⟨_, hgivenY, hgiven⟩ := bind_eq_ok.1 hgiven
  obtain ⟨_, hgivenWidth, hgiven⟩ := bind_eq_ok.1 hgiven
  obtain ⟨_, hgivenHeight, -⟩ := bind_eq_ok.1 hgiven
  cases h
  refine ⟨⟨p, hp, rfl⟩, ?_, ?_, ?_, ?_, ?_⟩
  · intro value hvalue
    simpa [Table.has, hvalue, entry_of_get? hvalue] using hconfig
  · intro value hvalue
    have hnull := checkGiven_eq_ok hgivenX hvalue
    have hnumber := Payload.checkNumber_eq_ok hx
    rw [entry_of_get? hvalue, hnull] at hnumber
    exact hnumber.resolve_left Bool.false_ne_true
  · intro value hvalue
    have hnull := checkGiven_eq_ok hgivenY hvalue
    have hnumber := Payload.checkNumber_eq_ok hy
    rw [entry_of_get? hvalue, hnull] at hnumber
    exact hnumber.resolve_left Bool.false_ne_true
  · intro value hvalue
    have hnull := checkGiven_eq_ok hgivenWidth hvalue
    have hsize := Payload.checkSize_eq_ok hwidth
    rw [entry_of_get? hvalue, hnull] at hsize
    exact hsize.resolve_left Bool.false_ne_true
  · intro value hvalue
    have hnull := checkGiven_eq_ok hgivenHeight hvalue
    have hsize := Payload.checkSize_eq_ok hheight
    rw [entry_of_get? hvalue, hnull] at hsize
    exact hsize.resolve_left Bool.false_ne_true

/-- What holds of a field and of what a patch has for it holds of the patched field. -/
theorem of_getD {P : Value → Prop} {changes : Payload} {key : String} {current : Value}
    (hcurrent : P current) (h : ∀ value, changes.get? key = some value → P value) :
    P ((changes.get? key).getD current) := by
  cases hfound : changes.get? key with
  | none => exact hcurrent
  | some value => exact h value hfound

/-- A patch keeps a node complete. -/
theorem isComplete_patchNode {node : Node} {changes : Payload} (h : node.IsComplete)
    (hchanges : IsChecked changes) : (patchNode node changes).IsComplete := by
  refine Node.isComplete_completed h.name h.type ?_ ?_ ?_ ?_ ?_
  · exact of_getD (P := fun value => value.isRecord = true) h.config hchanges.config
  · exact of_getD (P := fun value => value.isNumber = true) h.x hchanges.x
  · exact of_getD (P := fun value => value.isNumber = true) h.y hchanges.y
  · exact Value.isSize_orElse (Node.isSize_default _).1
      (.inr (of_getD (P := Value.IsSize) h.width hchanges.width))
  · exact Value.isSize_orElse (Node.isSize_default _).2
      (.inr (of_getD (P := Value.IsSize) h.height hchanges.height))

/-! ## Diagrams -/

variable {d d' : Diagram}

theorem IsComplete.of_mem_values {node : Node} (hd : d.IsComplete) (hnode : node ∈ d.nodes.values) :
    node.IsComplete := by
  obtain ⟨⟨key, found⟩, hmem, hentry⟩ := List.mem_map.1 hnode
  cases hentry
  exact hd.node key _ hmem

theorem IsComplete.laidOut {options : Options} (hd : d.IsComplete)
    (h : d.laidOut options = .ok d') : d'.IsComplete := by
  unfold Diagram.laidOut at h
  split at h
  · next drawing _ =>
    cases h
    refine ⟨?_, hd.edge, ⟨_, rfl⟩, ⟨_, rfl⟩⟩
    intro key node hnode
    obtain ⟨⟨id, old⟩, hold, heq⟩ := List.mem_map.1 hnode
    cases heq
    have hcomplete := hd.node _ old hold
    unfold moved
    split
    · exact { hcomplete with x := rfl, y := rfl }
    · exact hcomplete
  · cases h

theorem IsComplete.putNode (hd : d.IsComplete) {key : String} {node : Node}
    (hnode : node.IsComplete) : (d.putNode key node).IsComplete := by
  refine ⟨?_, hd.edge, hd.width, hd.height⟩
  intro id other hother
  rcases Table.mem_put hother with heq | hold
  · cases heq
    exact hnode
  · exact hd.node id other hold

theorem IsComplete.appendNode {payload : Value} (hd : d.IsComplete)
    (h : d.appendNode payload = .ok d') : d'.IsComplete := by
  obtain ⟨node, hnode, h⟩ := bind_eq_ok.1 h
  dsimp only at h
  split at h
  · cases h
  · cases h
    exact hd.putNode (Node.isComplete_of_node hnode)

theorem IsComplete.withNodeChanged {id payload : Value} {relayout : Bool} (hd : d.IsComplete)
    (h : d.withNodeChanged id payload relayout = .ok d') : d'.IsComplete := by
  obtain ⟨⟨key, node⟩, hnode, h⟩ := bind_eq_ok.1 h
  obtain ⟨changes, hchanges, h⟩ := bind_eq_ok.1 h
  have hold := hd.node key node (Table.mem_of_get? (nodeAt_eq_ok hnode).2)
  have hput : (d.putNode key (patchNode node changes)).IsComplete :=
    hd.putNode (isComplete_patchNode hold (checked_of_nodePatch hchanges).2)
  dsimp only at h
  split at h
  · cases h
    exact hput
  · exact hput.laidOut h

theorem IsComplete.removeNode (hd : d.IsComplete) (id : String) : (d.removeNode id).IsComplete :=
  ⟨fun key node hnode => hd.node key node (List.mem_of_mem_filter hnode),
    fun e he => hd.edge e (List.mem_of_mem_filter he), hd.width, hd.height⟩

/-- Edges whose ids were there before. -/
theorem IsComplete.of_ids (hd : d.IsComplete) {edges : List Edge}
    (h : ∀ e ∈ edges, ∃ old ∈ d.edges, old.id = e.id) :
    ({ d with edges := edges } : Diagram).IsComplete := by
  refine ⟨hd.node, fun e he => ?_, hd.width, hd.height⟩
  obtain ⟨old, hold, hid⟩ := h e he
  rw [← hid]
  exact hd.edge old hold

theorem isTruthy_edgeId (d : Diagram) (source target : String) :
    (Value.text (d.freshEdgeId source target)).isTruthy = true := by
  have hcolon : ∀ n, edgeIdAt source target n ≠ "" := by
    intro n h
    have hlength := congrArg String.length h
    cases n <;> simp [edgeIdAt] at hlength
  simp only [Value.isTruthy, bne_iff_ne]
  exact hcolon _

theorem IsComplete.addEdge (hd : d.IsComplete) (source target : String) (type : EdgeType)
    (label verb : Value) : (d.addEdge source target type label verb).IsComplete := by
  refine ⟨hd.node, fun e he => ?_, hd.width, hd.height⟩
  rcases List.mem_append.1 he with he | he
  · exact hd.edge e he
  · rw [List.mem_singleton.1 he]
    exact d.isTruthy_edgeId source target

theorem IsComplete.appendEdge {payload : Value} (hd : d.IsComplete)
    (h : d.appendEdge payload = .ok d') : d'.IsComplete := by
  obtain ⟨p, -, h⟩ := bind_eq_ok.1 h
  obtain ⟨source, -, h⟩ := bind_eq_ok.1 h
  obtain ⟨target, -, h⟩ := bind_eq_ok.1 h
  obtain ⟨_, -, h⟩ := bind_eq_ok.1 h
  obtain ⟨_, -, h⟩ := bind_eq_ok.1 h
  obtain ⟨type, -, h⟩ := bind_eq_ok.1 h
  cases h
  exact hd.addEdge source target type _ _

theorem IsComplete.withEdgeChanged {ref payload : Value} (hd : d.IsComplete)
    (hids : ∀ e ∈ d.edges, ∃ s, e.id = .text s)
    (h : d.withEdgeChanged ref payload = .ok d') : d'.IsComplete := by
  obtain ⟨edge, hedge, h⟩ := bind_eq_ok.1 h
  obtain ⟨changed, hchanged, h⟩ := bind_eq_ok.1 h
  refine IsComplete.laidOut (hd.of_ids fun e he => ?_) h
  obtain ⟨other, hother, rfl⟩ := List.mem_map.1 he
  refine ⟨other, hother, ?_⟩
  split
  · next hsame =>
    obtain ⟨s, hs⟩ := hids edge (mem_edges_of_resolve hedge)
    rw [isSameEdge, hs, Bool.and_eq_true, Value.identical_text_iff] at hsame
    have hid := congrArg Prod.fst (identity_patchEdge hchanged)
    simp only [Edge.identity] at hid
    rw [hid, hs, hsame.1]
  · rfl

theorem IsComplete.removeEdge (hd : d.IsComplete) (edge : Edge) :
    (d.removeEdge edge).IsComplete :=
  hd.of_ids fun e he => ⟨e, List.mem_of_mem_filter he, rfl⟩

/-! ## Polishing -/

theorem isTruthy_of_suggested? {suggestion value : Value} {key : String}
    (h : suggested? suggestion key = some value) : value.isTruthy = true := by
  unfold suggested? at h
  split at h
  · next s _ =>
    split at h
    · cases h
    · next hblank =>
      cases h
      simp only [Value.isTruthy, bne_iff_ne, ne_eq, Text.trimmed_eq_empty_iff]
      exact hblank
  · cases h

theorem IsComplete.takeNodeSuggestion (hd : d.IsComplete) (suggestion : Value) :
    (d.takeNodeSuggestion suggestion).IsComplete := by
  refine ⟨?_, hd.edge, hd.width, hd.height⟩
  intro key node hnode
  obtain ⟨⟨id, old⟩, hold, heq⟩ := List.mem_map.1 hnode
  cases heq
  have hcomplete := hd.node _ old hold
  split
  · have hlabel : ((suggested? suggestion "label").getD old.label).isTruthy = true := by
      cases hfound : suggested? suggestion "label" with
      | none => exact hcomplete.label
      | some label => exact isTruthy_of_suggested? hfound
    exact { hcomplete with label := hlabel }
  · exact hcomplete

theorem IsComplete.takeEdgeSuggestion (hd : d.IsComplete) (suggestion : Value) :
    (d.takeEdgeSuggestion suggestion).IsComplete := by
  refine hd.of_ids fun e he => ?_
  obtain ⟨old, hold, rfl⟩ := List.mem_map.1 he
  refine ⟨old, hold, ?_⟩
  split <;> rfl

theorem IsComplete.relabelled (hd : d.IsComplete) (answer : Table Value) :
    (d.relabelled answer).IsComplete :=
  relabelled_induction (fun _ suggestion hd => hd.takeNodeSuggestion suggestion)
    (fun _ suggestion hd => hd.takeEdgeSuggestion suggestion) hd answer

end Diagram

/-! ## Configurations -/

namespace Configuration

theorem isRecord_of_attributes {body config : Value} {place : String}
    (h : attributes body place = .ok config) : config.isRecord = true := by
  unfold attributes at h
  split at h
  · cases h
    rfl
  · cases h
    rfl
  · cases h

theorem isComplete_node {kind : Kind} {type : Option String} (name : String) {config : Value}
    (htype : kind.isTyped = true → ∃ found, type = some found) (hconfig : config.isRecord = true) :
    (node kind type name config).IsComplete :=
  Node.isComplete_completed ⟨name, rfl⟩ htype hconfig rfl rfl (Node.isSize_default kind).1
    (Node.isSize_default kind).2

theorem isComplete_of_blocksUnder {kind : Kind} {type : Option String} {place : String}
    {blocks : List (String × Value)} {nodes : List Node}
    (htype : kind.isTyped = true → ∃ found, type = some found)
    (h : blocksUnder kind type place blocks = .ok nodes) : ∀ node ∈ nodes, node.IsComplete := by
  intro n hn
  obtain ⟨⟨name, body⟩, -, hblock⟩ := mem_of_mapM_eq_ok h n hn
  obtain ⟨config, hconfig, hnode⟩ := bind_eq_ok.1 hblock
  cases hnode
  exact isComplete_node name htype (isRecord_of_attributes hconfig)

theorem isComplete_of_blocksOf {sections : Value} {kind : Kind} {nodes : List Node}
    (h : blocksOf sections kind = .ok nodes) : ∀ node ∈ nodes, node.IsComplete := by
  obtain ⟨found, -, h⟩ := bind_eq_ok.1 h
  split at h
  · obtain ⟨groups, hgroups, h⟩ := bind_eq_ok.1 h
    cases h
    intro n hn
    obtain ⟨group, hgroup, hn⟩ := List.mem_flatten.1 hn
    obtain ⟨⟨type, blocks⟩, -, hblocks⟩ := mem_of_mapM_eq_ok hgroups group hgroup
    dsimp only at hblocks
    split at hblocks
    · exact isComplete_of_blocksUnder (fun _ => ⟨type, rfl⟩) hblocks n hn
    · cases hblocks
  · next huntyped =>
    exact isComplete_of_blocksUnder (fun htyped => absurd htyped huntyped) h

theorem isComplete_connect {d : Diagram} (hd : d.IsComplete) (connections : List Connection) :
    (connections.foldl Diagram.connect d).IsComplete := by
  induction connections generalizing d with
  | nil => exact hd
  | cons c rest ih => exact ih (hd.addEdge c.source c.target c.type _ _)

theorem isComplete_diagram {configuration : Value} {options : Options} {d : Diagram}
    (h : diagram configuration options = .ok d) : d.IsComplete := by
  unfold diagram at h
  split at h
  · obtain ⟨found, hfound, h⟩ := bind_eq_ok.1 h
    cases h
    refine isComplete_connect ⟨?_, ?_, ⟨0, rfl⟩, ⟨0, rfl⟩⟩ _
    · intro key node hnode
      obtain ⟨n, hn, heq⟩ := List.mem_map.1 (Table.mem_of_mem_ofList hnode)
      cases heq
      obtain ⟨groups, hgroups, h⟩ := bind_eq_ok.1 hfound
      cases h
      obtain ⟨group, hgroup, hn⟩ := List.mem_flatten.1 hn
      obtain ⟨kind, -, hkind⟩ := mem_of_mapM_eq_ok hgroups group hgroup
      exact isComplete_of_blocksOf hkind _ hn
    · intro e he
      cases he
  · cases h

theorem isComplete_drawn {configuration : Value} {options : Options} {d : Diagram}
    (h : drawn configuration options = .ok d) : d.IsComplete := by
  obtain ⟨unplaced, hunplaced, h⟩ := bind_eq_ok.1 h
  exact (isComplete_diagram hunplaced).laidOut h

end Configuration

end BlockDiagram
