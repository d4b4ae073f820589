import BlockDiagram.Proofs.Block.Written
import BlockDiagram.Proofs.Diagram.Complete

/-!
# What an edit touches

An edit of a node or an edge takes its one entry out of the table or list, or puts another one in
its place, or adds one at the end. All other entries keep their places.

* `Table.exists_append_of_get?`, `WellFormed.exists_append_of_mem`: the place of a node or an edge.
* `exists_of_withNodeChanged`: a node changed by a patch, which touches the fields it names.
* `exists_of_appendNode`, `removeNode_append`: a node added and removed.
* `exists_of_appendEdge`, `exists_of_withEdgeChanged`, `removeEdge_append`: edges.
* `unplaced_laidOut`: laying out touches coordinates and bounds alone.
-/

namespace BlockDiagram

open Outcome

/-! ## Places -/

namespace Table

variable {α : Type}

/-- The place of the entry that is found under a key. -/
theorem exists_append_of_get? {t : Table α} {key : String} {value : α}
    (h : t.get? key = some value) :
    ∃ before after, t = before ++ (key, value) :: after ∧ key ∉ keys before := by
  induction t with
  | nil => cases h
  | cons entry rest ih =>
    obtain ⟨k, v⟩ := entry
    rw [get?_cons] at h
    split at h
    · next hsame =>
      subst hsame
      cases h
      exact ⟨[], rest, rfl, List.not_mem_nil⟩
    · next hdiffers =>
      obtain ⟨before, after, hrest, hnew⟩ := ih h
      refine ⟨(k, v) :: before, after, by rw [hrest, List.cons_append], ?_⟩
      rw [keys, List.map_cons, List.mem_cons, not_or]
      exact ⟨Ne.symm hdiffers, hnew⟩

theorem put_append {before after : Table α} {key : String} (h : key ∉ keys before) (old new : α) :
    put (before ++ (key, old) :: after) key new = before ++ (key, new) :: after := by
  induction before with
  | nil => rw [List.nil_append, put, if_pos rfl, List.nil_append]
  | cons entry rest ih =>
    rw [keys, List.map_cons, List.mem_cons, not_or] at h
    rw [List.cons_append, put, if_neg (Ne.symm h.1), ih h.2, List.cons_append]

theorem erase_append {before after : Table α} {key : String} {value : α}
    (h : (keys (before ++ (key, value) :: after)).Nodup) :
    erase (before ++ (key, value) :: after) key = before ++ after := by
  rw [keys, List.map_append, List.map_cons, List.nodup_append, List.nodup_cons] at h
  obtain ⟨-, ⟨hafter, -⟩, hbefore⟩ := h
  have hkept : ∀ t : Table α, (∀ k ∈ t.keys, k ≠ key) →
      (t.filter fun entry => entry.1 != key) = t := by
    intro t ht
    exact List.filter_eq_self.2 fun entry hentry => bne_iff_ne.2 (ht _ (List.mem_map_of_mem hentry))
  rw [erase, List.filter_append, List.filter_cons_of_neg (by simp), hkept before, hkept after]
  · rintro k hk rfl
    exact hafter hk
  · exact fun k hk => hbefore k hk key List.mem_cons_self

end Table

/-! ## Patches -/

/-- A node with the fields that a patch names in place of its own. Where the patch names a label
that does not count as given, it is the one of the kind. -/
def Node.patched (node : Node) (p : Payload) : Node :=
  { node with
    label := match p.get? "label" with
      | some given => given.orElse (.text (node.kind.defaultLabel node.name node.resourceType))
      | none => node.label
    config := (p.get? "config").getD node.config
    x := (p.get? "x").getD node.x
    y := (p.get? "y").getD node.y
    width := (p.get? "width").getD node.width
    height := (p.get? "height").getD node.height
    icon := (p.get? "icon").getD node.icon }

/-- An edge with the label and verb that a patch names in place of its own, and a type. -/
def Edge.patched (edge : Edge) (p : Payload) (type : EdgeType) : Edge :=
  { edge with
    type := type
    label := (p.get? "label").getD edge.label
    verb := (p.get? "verb").getD edge.verb }

namespace Diagram

theorem get?_changes (p : Payload) (key : String) (h : key ∉ ["id", "kind", "type"]) :
    Table.get? (((p.erase "id").erase "kind").erase "type") key = p.get? key := by
  simp only [List.mem_cons, List.not_mem_nil, or_false, not_or] at h
  obtain ⟨hid, hkind, htype⟩ := h
  rw [Table.get?_erase_of_ne _ htype, Table.get?_erase_of_ne _ hkind, Table.get?_erase_of_ne _ hid]

/-- A checked patch of a complete node touches the fields that it names. -/
theorem patchNode_eq {node : Node} {p : Payload} (hnode : node.IsComplete)
    (hchecked : IsChecked (((p.erase "id").erase "kind").erase "type")) :
    patchNode node (((p.erase "id").erase "kind").erase "type") = node.patched p := by
  have hlabel : ((p.get? "label").getD node.label).orElse
        (.text (node.kind.defaultLabel node.name node.resourceType))
      = match p.get? "label" with
        | some given => given.orElse (.text (node.kind.defaultLabel node.name node.resourceType))
        | none => node.label := by
    cases p.get? "label" with
    | none => exact Value.orElse_of_isTruthy hnode.label _
    | some given => rfl
  have hwidth := Value.isTruthy_of_isSize
    (of_getD (P := Value.IsSize) hnode.width hchecked.width)
  have hheight := Value.isTruthy_of_isSize
    (of_getD (P := Value.IsSize) hnode.height hchecked.height)
  rw [get?_changes p "width" (by decide)] at hwidth
  rw [get?_changes p "height" (by decide)] at hheight
  simp only [patchNode, Node.completed, Node.patched, get?_changes p "label" (by decide),
    get?_changes p "config" (by decide), get?_changes p "x" (by decide),
    get?_changes p "y" (by decide), get?_changes p "width" (by decide),
    get?_changes p "height" (by decide), get?_changes p "icon" (by decide), hlabel,
    Value.orElse_of_isTruthy hwidth, Value.orElse_of_isTruthy hheight]

/-! ## Nodes -/

variable {d d' : Diagram}

theorem exists_of_appendNode {payload : Value} (h : d.appendNode payload = .ok d') :
    ∃ node, Payload.node payload = .ok node ∧ d.hasNode node.id = false ∧
      d' = { d with nodes := d.nodes ++ [(node.id, node)] } := by
  obtain ⟨node, hnode, h⟩ := bind_eq_ok.1 h
  dsimp only at h
  split at h
  · cases h
  · next hnew =>
    cases h
    refine ⟨node, hnode, Bool.eq_false_iff.2 hnew, ?_⟩
    have hkey : node.id ∉ d.nodes.keys := fun hkey => hnew (Table.mem_keys_iff.1 hkey)
    rw [putNode, Table.put_of_not_mem hkey]

/-- What a patch makes of a diagram, and when the diagram is laid out anew. -/
theorem exists_of_withNodeChanged {id patch : Value} {relayout : Bool} (hd : d.IsComplete)
    (h : d.withNodeChanged id patch relayout = .ok d') :
    ∃ (key : String) (node : Node) (p : Payload) (before after : Table Node),
      id = .text key ∧ Payload.ofValue Payload.nodeSpellings patch = .ok p ∧
      d.nodes = before ++ (key, node) :: after ∧
      (p.has "x" = true ∨ p.has "y" = true ∨ relayout = false →
        d' = { d with nodes := before ++ (key, node.patched p) :: after }) ∧
      (¬ (p.has "x" = true ∨ p.has "y" = true ∨ relayout = false) →
        refreshed { d with nodes := before ++ (key, node.patched p) :: after } = .ok d') := by
  obtain ⟨⟨key, node⟩, hnode, h⟩ := bind_eq_ok.1 h
  obtain ⟨changes, hchanges, h⟩ := bind_eq_ok.1 h
  obtain ⟨⟨p, hp, rfl⟩, hchecked⟩ := checked_of_nodePatch hchanges
  obtain ⟨hid, hfound⟩ := nodeAt_eq_ok hnode
  obtain ⟨before, after, hnodes, hbefore⟩ := Table.exists_append_of_get? hfound
  refine ⟨key, node, p, before, after, hid, hp, hnodes, ?_⟩
  have hcomplete := hd.node key node (Table.mem_of_get? hfound)
  have hchanged : d.putNode key (patchNode node (((p.erase "id").erase "kind").erase "type"))
      = { d with nodes := before ++ (key, node.patched p) :: after } := by
    rw [patchNode_eq hcomplete hchecked, putNode, hnodes, Table.put_append hbefore]
  dsimp only at h
  rw [hchanged, Table.has, Table.has, get?_changes p "x" (by decide),
    get?_changes p "y" (by decide)] at h
  simp only [Bool.or_eq_true, Bool.not_eq_true', or_assoc] at h
  split at h
  · next hmoved =>
    cases h
    exact ⟨fun _ => rfl, fun hnot => absurd hmoved hnot⟩
  · next hmoved => exact ⟨fun hmoves => absurd hmoves hmoved, fun _ => h⟩

theorem removeNode_append {before after : Table Node} {key : String} {node : Node}
    (hd : d.WellFormed) (h : d.nodes = before ++ (key, node) :: after) :
    d.removeNode key = { d with
      nodes := before ++ after
      edges := d.edges.filter fun edge => !edge.touches key } := by
  have hkeys := hd.keys_nodup
  rw [h] at hkeys
  rw [removeNode, h, Table.erase_append hkeys]

/-! ## Edges -/

theorem exists_of_appendEdge {payload : Value} (h : d.appendEdge payload = .ok d') :
    ∃ (p : Payload) (edge : Edge), Payload.ofValue Payload.edgeSpellings payload = .ok p ∧
      p.entry "source_id" = .text edge.source ∧ p.entry "target_id" = .text edge.target ∧
      d.hasEdge edge.id = false ∧ d' = { d with edges := d.edges ++ [edge] } := by
  have hentry : ∀ {p : Payload} {role : Endpoint} {key id : String},
      endpointOf p role key = .ok id → p.entry key = .text id := by
    intro p role key id hid
    rw [endpointOf, Payload.text?] at hid
    split at hid
    · next hfound =>
      split at hfound
      · split at hfound
        · cases hfound
        · cases hfound
          cases hid
          assumption
      · cases hfound
    · cases hid
  obtain ⟨p, hp, h⟩ := bind_eq_ok.1 h
  obtain ⟨source, hsource, h⟩ := bind_eq_ok.1 h
  obtain ⟨target, htarget, h⟩ := bind_eq_ok.1 h
  obtain ⟨_, -, h⟩ := bind_eq_ok.1 h
  obtain ⟨_, -, h⟩ := bind_eq_ok.1 h
  obtain ⟨type, -, h⟩ := bind_eq_ok.1 h
  cases h
  exact ⟨p, _, hp, hentry hsource, hentry htarget, d.hasEdge_freshEdgeId source target, rfl⟩

/-- The place of an edge, and that it is the only one of its kind. -/
theorem WellFormed.exists_append_of_mem (hd : d.WellFormed) {edge : Edge} (h : edge ∈ d.edges) :
    ∃ before after, d.edges = before ++ edge :: after ∧ isSameEdge edge edge = true ∧
      ∀ other ∈ before ++ after, isSameEdge other edge = false := by
  obtain ⟨before, after, hedges⟩ := List.append_of_mem h
  obtain ⟨s, hs⟩ := hd.edgeId_text edge h
  refine ⟨before, after, hedges, ?_, fun other hother => ?_⟩
  · rw [isSameEdge, hs, Value.identical_text, Edge.joins]
    simp
  · have hnodup := hd.edgeIds_nodup
    rw [hedges, List.map_append, List.map_cons] at hnodup
    have hperm : (before.map Edge.id ++ edge.id :: after.map Edge.id).Perm
        (edge.id :: (before ++ after).map Edge.id) := by
      rw [List.map_append]
      exact List.perm_middle
    have hnew := (List.nodup_cons.1 (hperm.nodup_iff.1 hnodup)).1
    rw [← Bool.not_eq_true, isSameEdge, hs, Bool.and_eq_true, Value.identical_text_iff]
    rintro ⟨hsame, -⟩
    exact hnew (hs ▸ hsame ▸ List.mem_map_of_mem hother)

theorem exists_of_patchEdge {edge changed : Edge} {patch : Value}
    (h : patchEdge edge patch = .ok changed) :
    ∃ (p : Payload) (type : EdgeType), Payload.ofValue Payload.edgeSpellings patch = .ok p ∧
      (p.has "type" = false → type = edge.type) ∧ changed = edge.patched p type := by
  obtain ⟨p, hp, h⟩ := bind_eq_ok.1 h
  obtain ⟨_, -, h⟩ := bind_eq_ok.1 h
  obtain ⟨_, -, h⟩ := bind_eq_ok.1 h
  have hget : ∀ key, key ∉ ["source_id", "target_id", "id"] →
      Table.get? (((p.erase "source_id").erase "target_id").erase "id") key = p.get? key := by
    intro key hkey
    simp only [List.mem_cons, List.not_mem_nil, or_false, not_or] at hkey
    obtain ⟨hsource, htarget, hid⟩ := hkey
    rw [Table.get?_erase_of_ne _ hid, Table.get?_erase_of_ne _ htarget,
      Table.get?_erase_of_ne _ hsource]
  dsimp only at h
  split at h
  · cases h
  split at h
  · cases h
  rw [hget "type" (by decide), hget "label" (by decide), hget "verb" (by decide)] at h
  split at h
  · next value hvalue =>
    obtain ⟨type, -, h⟩ := bind_eq_ok.1 h
    cases h
    refine ⟨p, type, hp, fun hnone => ?_, rfl⟩
    rw [Table.has, hvalue] at hnone
    cases hnone
  · cases h
    exact ⟨p, edge.type, hp, fun _ => rfl, rfl⟩

/-- What a patch of an edge makes of a diagram before it is laid out. -/
theorem exists_of_withEdgeChanged {ref patch : Value} (hd : d.WellFormed)
    (h : d.withEdgeChanged ref patch = .ok d') :
    ∃ (edge : Edge) (p : Payload) (type : EdgeType) (before after : List Edge),
      d.resolve ref = .ok edge ∧ Payload.ofValue Payload.edgeSpellings patch = .ok p ∧
      (p.has "type" = false → type = edge.type) ∧ d.edges = before ++ edge :: after ∧
      refreshed { d with edges := before ++ edge.patched p type :: after } = .ok d' := by
  obtain ⟨edge, hedge, h⟩ := bind_eq_ok.1 h
  obtain ⟨changed, hchanged, h⟩ := bind_eq_ok.1 h
  obtain ⟨p, type, hp, htype, rfl⟩ := exists_of_patchEdge hchanged
  obtain ⟨before, after, hedges, hsame, hothers⟩ :=
    hd.exists_append_of_mem (mem_edges_of_resolve hedge)
  refine ⟨edge, p, type, before, after, hedge, hp, htype, hedges, ?_⟩
  have hkept : ∀ edges : List Edge, (∀ other ∈ edges, isSameEdge other edge = false) →
      (edges.map fun other => if isSameEdge other edge then edge.patched p type else other)
        = edges := by
    intro edges hedges
    refine (List.map_congr_left fun other hother => ?_).trans (List.map_id edges)
    rw [hedges other hother]
    rfl
  rw [hedges, List.map_append, List.map_cons, hsame,
    hkept before fun other hother => hothers other (List.mem_append_left _ hother),
    hkept after fun other hother => hothers other (List.mem_append_right _ hother)] at h
  exact h

theorem removeEdge_append (hd : d.WellFormed) {edge : Edge} (h : edge ∈ d.edges) :
    ∃ before after, d.edges = before ++ edge :: after ∧
      d.removeEdge edge = { d with edges := before ++ after } := by
  obtain ⟨before, after, hedges, hsame, hothers⟩ := hd.exists_append_of_mem h
  refine ⟨before, after, hedges, ?_⟩
  have hkept : ∀ edges : List Edge, (∀ other ∈ edges, isSameEdge other edge = false) →
      (edges.filter fun other => !isSameEdge other edge) = edges := by
    intro edges hedges
    exact List.filter_eq_self.2 fun other hother => by rw [hedges other hother]; rfl
  rw [removeEdge, hedges, List.filter_append, List.filter_cons_of_neg (by rw [hsame]; decide),
    hkept before fun other hother => hothers other (List.mem_append_left _ hother),
    hkept after fun other hother => hothers other (List.mem_append_right _ hother)]

end Diagram

/-! ## Layout -/

/-- A node without its coordinates. -/
def Node.unplaced (node : Node) : Node := { node with x := .null, y := .null }

namespace Diagram

/-- A diagram without coordinates and bounds. -/
def unplaced (d : Diagram) : Diagram :=
  { d with
    nodes := d.nodes.map fun entry => (entry.1, entry.2.unplaced)
    width := .null
    height := .null }

variable {d d' : Diagram}

/-- Laying out touches coordinates and bounds alone, and the options if others are given. -/
theorem unplaced_laidOut {options : Options} (h : d.laidOut options = .ok d') :
    d'.unplaced = { d with options := options }.unplaced := by
  unfold laidOut at h
  split at h
  · next drawing _ =>
    cases h
    have hmoved : ∀ id node, (moved drawing.centres id node).unplaced = node.unplaced := by
      intro id node
      unfold moved
      split <;> rfl
    simp only [unplaced, placed, List.map_map, Function.comp_def, hmoved]
  · cases h

/-- The options that a diagram has do not count when it is laid out with others. -/
theorem refreshed_with_options (d : Diagram) (options : Options) :
    refreshed { d with options := options } = d.laidOut options := rfl

/-- What is written of a diagram does not depend on where its nodes are. -/
theorem written_of_unplaced_eq (h : d'.unplaced = d.unplaced) : d'.written = d.written := by
  have hwritten : ∀ d : Diagram, d.unplaced.written = d.written := by
    intro d
    simp only [written, unplaced, Table.values, List.map_map]
    rfl
  rw [← hwritten d', h, hwritten d]

end Diagram

end BlockDiagram
