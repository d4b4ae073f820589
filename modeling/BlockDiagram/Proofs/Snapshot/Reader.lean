import BlockDiagram.Proofs.Diagram.Complete
import BlockDiagram.Proofs.Store
import BlockDiagram.Snapshot.Reader

/-!
# Snapshots are read back

A snapshot is read by the checks that new nodes and options pass. What it leaves out, because it
does not count as given, is absent when it is read: an icon, a verb. A coordinate that is zero of
any sort is the whole zero. All else comes back as it is.

* `Diagram.reloaded`: what is read back.
* `Payload.node_toValue`, `Payload.options_toValue`: nodes and options.
* `Snapshot.addEdge_toValue`: edges.
* `Snapshot.diagram_snapshot`: the snapshot of a diagram.
-/

namespace BlockDiagram

open Outcome

/-- A node as it is read back. -/
def Node.reloaded (node : Node) : Node :=
  { node with
    x := node.x.orElse (.int 0)
    y := node.y.orElse (.int 0)
    icon := node.icon.orElse .null }

/-- An edge as it is read back. -/
def Edge.reloaded (edge : Edge) : Edge := { edge with verb := edge.verb.orElse .null }

/-- A diagram as it is read back. -/
def Diagram.reloaded (d : Diagram) : Diagram :=
  { d with
    nodes := d.nodes.map fun entry => (entry.1, entry.2.reloaded)
    edges := d.edges.map Edge.reloaded }

/-! ## Fields that may be left out -/

theorem get?_givenField_self (key : String) (value : Value) :
    (Table.get? (givenField key value) key).getD .null = value.orElse .null := by
  rw [givenField, Value.orElse]
  split
  · rw [Table.get?_cons, if_pos rfl]
    rfl
  · rfl

theorem get?_givenField_of_ne {key other : String} (h : key ≠ other) (value : Value) :
    Table.get? (givenField key value) other = none := by
  rw [givenField]
  split
  · rw [Table.get?_cons, if_neg h]
    rfl
  · rfl

theorem keys_givenField_sublist (key : String) (value : Value) :
    (Table.keys (givenField key value)).Sublist [key] := by
  rw [givenField]
  split
  · exact List.Sublist.refl _
  · exact List.nil_sublist _

/-! ## Nodes -/

/-- The fields that a snapshot has for every node. -/
def Node.fixedFields (node : Node) : List (String × Value) := [
  ("id", .text node.id), ("kind", .text node.kind.key), ("name", nameValue node.name),
  ("label", node.label), ("config", node.config), ("x", node.x), ("y", node.y),
  ("width", node.width), ("height", node.height)]

namespace Payload

/-- What is read from the snapshot of a node. -/
def ofNode (node : Node) : Payload :=
  node.fixedFields ++ givenField "resource_type" (nameValue node.resourceType)
    ++ givenField "icon" node.icon

theorem ofValue_toValue (node : Node) :
    ofValue nodeSpellings node.toValue = .ok (ofNode node) := by
  let respelled : String × Value → String × Value := fun field =>
    ((nodeSpellings.get? field.1).getD field.1, field.2)
  have hgiven : ∀ key value, (givenField key value).map respelled
      = givenField ((nodeSpellings.get? key).getD key) value := by
    intro key value
    rw [givenField, givenField]
    split <;> rfl
  have hfields : (node.fixedFields ++ givenField "resourceType" (nameValue node.resourceType)
        ++ givenField "icon" node.icon).map respelled = ofNode node := by
    rw [List.map_append, List.map_append, hgiven, hgiven]
    rfl
  have hkeys : (Table.keys (ofNode node)).Nodup := by
    have hsublist : (Table.keys (ofNode node)).Sublist
        (node.fixedFields.map Prod.fst ++ ["resource_type"] ++ ["icon"]) := by
      rw [ofNode, Table.keys, List.map_append, List.map_append]
      exact ((List.Sublist.refl _).append (keys_givenField_sublist _ _)).append
        (keys_givenField_sublist _ _)
    have hnodup : List.Nodup ["id", "kind", "name", "label", "config", "x", "y", "width", "height",
        "resource_type", "icon"] := by
      decide
    exact hsublist.nodup hnodup
  rw [Node.toValue, ofValue]
  exact congrArg Except.ok ((congrArg Table.ofList hfields).trans (Table.ofList_eq_self hkeys))

/-! ### Entries -/

theorem entry_of_fixed {node : Node} {key : String} {value : Value}
    (h : Table.get? node.fixedFields key = some value) : (ofNode node).entry key = value := by
  rw [entry, ofNode, Table.get?_append, Table.get?_append, h]
  rfl

theorem entry_resourceType (node : Node) :
    (ofNode node).entry "resource_type" = (nameValue node.resourceType).orElse .null := by
  have hfixed : Table.get? node.fixedFields "resource_type" = none := rfl
  have hicon := get?_givenField_of_ne (show "icon" ≠ "resource_type" by decide) node.icon
  rw [entry, ofNode, Table.get?_append, Table.get?_append, hfixed, Option.none_or, hicon,
    Option.or_none, get?_givenField_self]

theorem entry_icon (node : Node) : (ofNode node).entry "icon" = node.icon.orElse .null := by
  have hfixed : Table.get? node.fixedFields "icon" = none := rfl
  have htype := get?_givenField_of_ne (show "resource_type" ≠ "icon" by decide)
    (nameValue node.resourceType)
  rw [entry, ofNode, Table.get?_append, Table.get?_append, hfixed, Option.none_or, htype,
    Option.none_or, get?_givenField_self]

theorem text?_of_entry {p : Payload} {key s : String} (h : p.entry key = .text s)
    (hblank : Text.isBlankText s = false) : p.text? key = some s := by
  rw [text?, h]
  simp only [hblank, Bool.false_eq_true, if_false]

end Payload

/-- Whether the name and the type of a node are not blank, where there are any. -/
def Node.isNamed (node : Node) : Bool :=
  node.name.all (fun name => !Text.isBlankText name)
    && node.resourceType.all fun type => !Text.isBlankText type

theorem Node.exists_name {node : Node} (hcomplete : node.IsComplete)
    (hnamed : node.isNamed = true) :
    ∃ name, node.name = some name ∧ Text.isBlankText name = false := by
  obtain ⟨name, hname⟩ := hcomplete.name
  rw [isNamed, hname, Option.all_some, Bool.and_eq_true, Bool.not_eq_true'] at hnamed
  exact ⟨name, hname, hnamed.1⟩

theorem Node.exists_type {node : Node} (hcomplete : node.IsComplete) (hnamed : node.isNamed = true)
    (htyped : node.kind.isTyped = true) :
    ∃ type, node.resourceType = some type ∧ Text.isBlankText type = false := by
  obtain ⟨type, htype⟩ := hcomplete.type htyped
  rw [isNamed, htype, Option.all_some, Bool.and_eq_true, Bool.not_eq_true'] at hnamed
  exact ⟨type, htype, hnamed.2⟩

theorem Text.ne_empty_of_isBlankText {s : String} (h : Text.isBlankText s = false) : s ≠ "" := by
  rintro rfl
  cases h

namespace Payload

variable {node : Node}

theorem kind_key (kind : Kind) : Payload.kind (.text kind.key) = .ok kind := by
  unfold Payload.kind
  dsimp only
  rw [Kind.ofText?_key]

theorem nodeKind_ofNode (node : Node) : (ofNode node).nodeKind = .ok node.kind := by
  have hkind : (ofNode node).entry "kind" = .text node.kind.key := entry_of_fixed rfl
  rw [nodeKind, hkind]
  simp only [Value.isNull, Bool.false_eq_true, if_false, kind_key]

theorem nodeName_ofNode {name : String} (hname : node.name = some name)
    (hblank : Text.isBlankText name = false) : (ofNode node).nodeName = .ok name := by
  have hentry : (ofNode node).entry "name" = .text name := by
    rw [← show nameValue node.name = .text name by rw [hname]; rfl]
    exact entry_of_fixed rfl
  have hid : (ofNode node).entry "id" = .text node.id := entry_of_fixed rfl
  have htruthy : (Value.text name).isTruthy = true := by
    simpa [Value.isTruthy] using Text.ne_empty_of_isBlankText hblank
  have htext : text? [("name", .text name)] "name" = some name := text?_of_entry rfl hblank
  simp only [nodeName, hentry, hid, htruthy, if_true, htext]

theorem nodeType_ofNode (hwf : node.WellFormed) (hcomplete : node.IsComplete)
    (hnamed : node.isNamed = true) : (ofNode node).nodeType node.kind = .ok node.resourceType := by
  rw [nodeType]
  split
  · next htyped =>
    obtain ⟨type, htype, hblank⟩ := Node.exists_type hcomplete hnamed htyped
    have hentry : (ofNode node).entry "resource_type" = .text type := by
      rw [entry_resourceType, htype, nameValue, Value.orElse_of_isTruthy]
      simpa [Value.isTruthy] using Text.ne_empty_of_isBlankText hblank
    rw [text?_of_entry hentry hblank, htype]
  · next huntyped => rw [hwf.untyped (Bool.eq_false_iff.2 huntyped)]

theorem checkNumber_of_isNumber {p : Payload} {key : String}
    (h : (p.entry key).isNumber = true) : p.checkNumber key = .ok () := by
  rw [checkNumber, h, Bool.or_true, if_pos rfl]

theorem checkSize_of_isSize {p : Payload} {key : String} (h : (p.entry key).IsSize) :
    p.checkSize key = .ok () := by
  rw [checkSize, checkNumber_of_isNumber h.isNumber, h.positive]
  rfl

theorem orElse_of_isRecord {value : Value} (h : value.isRecord = true) :
    value.orElse (.record []) = value := by
  cases value with
  | record fields => cases fields <;> rfl
  | _ => cases h

/-- A complete node is read back from its snapshot if its name and its type are not blank. -/
theorem node_toValue (hwf : node.WellFormed) (hcomplete : node.IsComplete)
    (hnamed : node.isNamed = true) : Payload.node node.toValue = .ok node.reloaded := by
  obtain ⟨name, hname, hblank⟩ := Node.exists_name hcomplete hnamed
  have hid : (ofNode node).entry "id" = .text node.id := entry_of_fixed rfl
  have hlabel : (ofNode node).entry "label" = node.label := entry_of_fixed rfl
  have hconfig : (ofNode node).entry "config" = node.config := entry_of_fixed rfl
  have hx : (ofNode node).entry "x" = node.x := entry_of_fixed rfl
  have hy : (ofNode node).entry "y" = node.y := entry_of_fixed rfl
  have hwidth : (ofNode node).entry "width" = node.width := entry_of_fixed rfl
  have hheight : (ofNode node).entry "height" = node.height := entry_of_fixed rfl
  have hnodeId : node.kind.nodeId (some name) node.resourceType = node.id := by
    rw [← hname, hwf.id_eq]
  have hagrees : (ofNode node).contradicts "id" (.text node.id) = false := by
    rw [contradicts, hid, Value.same_text, beq_self_eq_true]
    rfl
  have hcheckX : (ofNode node).checkNumber "x" = .ok () :=
    checkNumber_of_isNumber (hx ▸ hcomplete.x)
  have hcheckY : (ofNode node).checkNumber "y" = .ok () :=
    checkNumber_of_isNumber (hy ▸ hcomplete.y)
  have hcheckWidth : (ofNode node).checkSize "width" = .ok () :=
    checkSize_of_isSize (hwidth ▸ hcomplete.width)
  have hcheckHeight : (ofNode node).checkSize "height" = .ok () :=
    checkSize_of_isSize (hheight ▸ hcomplete.height)
  rw [Payload.node, ofValue_toValue]
  simp only [bind, Except.bind, nodeKind_ofNode, nodeName_ofNode hname hblank,
    nodeType_ofNode hwf hcomplete hnamed, hnodeId, hagrees, hconfig,
    orElse_of_isRecord hcomplete.config, hcomplete.config, hcheckX, hcheckY, hcheckWidth,
    hcheckHeight, Bool.not_true, Bool.false_eq_true, if_false, hlabel, hx, hy, hwidth, hheight,
    entry_icon, pure, Except.pure]
  rw [Node.completed, Node.reloaded, ← hname]
  simp only [Value.orElse_of_isTruthy (Value.isTruthy_of_isSize hcomplete.width),
    Value.orElse_of_isTruthy (Value.isTruthy_of_isSize hcomplete.height),
    Value.orElse_of_isTruthy hcomplete.label]

/-! ## Options -/

theorem spacing_of_entry {p : Payload} {key : String} {value : Value}
    (hvalue : value.isNumber = true ∧ isBelowZero value = false) (h : p.entry key = value)
    (base : Value) : p.spacing key base = .ok value := by
  obtain ⟨hnumber, hbelow⟩ := hvalue
  have hnull : value.isNull = false := by
    cases value <;> first | rfl | cases hnumber
  have hchecked : p.checkSpacing key = .ok () := by
    rw [checkSpacing, checkNumber_of_isNumber (by rw [h]; exact hnumber), h, hbelow]
    rfl
  rw [spacing, hchecked, h, hnull]
  rfl

end Payload

/-- Whether all spacings and margins are numbers that are not below zero. -/
def Options.isNonNegative (options : Options) : Bool :=
  [options.nodeSpacing, options.rankSpacing, options.marginX, options.marginY].all fun value =>
    value.isNumber && !Payload.isBelowZero value

/-- Options are read back from their snapshot, whatever they are laid over. -/
theorem Payload.options_toValue {options : Options} (h : options.isNonNegative = true)
    (base : Options) : Payload.options options.toValue base = .ok options := by
  simp only [Options.isNonNegative, List.all_cons, List.all_nil, Bool.and_true, Bool.and_eq_true,
    Bool.not_eq_true'] at h
  obtain ⟨hnodeSpacing, hrankSpacing, hmarginX, hmarginY⟩ := h
  let p : Payload := [
    ("direction", .text options.direction.key), ("node_spacing", options.nodeSpacing),
    ("rank_spacing", options.rankSpacing), ("margin_x", options.marginX),
    ("margin_y", options.marginY)]
  have hp : Payload.ofValue optionSpellings options.toValue = .ok p := rfl
  have hdirection : p.direction base.direction = .ok options.direction := by
    have hentry : p.entry "direction" = .text options.direction.key := rfl
    rw [direction, hentry]
    simp only [Value.isNull, Bool.false_eq_true, if_false, Value.shown_text, Direction.ofText?_key]
  have hnodes : p.spacing "node_spacing" base.nodeSpacing = .ok options.nodeSpacing :=
    spacing_of_entry hnodeSpacing rfl _
  have hranks : p.spacing "rank_spacing" base.rankSpacing = .ok options.rankSpacing :=
    spacing_of_entry hrankSpacing rfl _
  have hx : p.spacing "margin_x" base.marginX = .ok options.marginX :=
    spacing_of_entry hmarginX rfl _
  have hy : p.spacing "margin_y" base.marginY = .ok options.marginY :=
    spacing_of_entry hmarginY rfl _
  have htruthy : options.toValue.isTruthy = true := rfl
  rw [Payload.options, if_pos htruthy, hp]
  simp only [bind, Except.bind, hdirection, hnodes, hranks, hx, hy, pure, Except.pure]

namespace Snapshot

/-! ## Edges -/

/-- The fields that a snapshot has for every edge. -/
def fixedFields (edge : Edge) : List (String × Value) := [
  ("id", edge.id), ("sourceId", .text edge.source), ("targetId", .text edge.target),
  ("type", .text edge.type.key), ("label", edge.label)]

/-- An edge with an id of its own and a label is read back from its snapshot. -/
theorem addEdge_toValue {d : Diagram} {edge : Edge} {id label : String} (hid : edge.id = .text id)
    (hgiven : edge.id.isTruthy = true) (hlabel : edge.label = .text label)
    (hnew : ∀ other ∈ d.edges, other.id ≠ edge.id) :
    addEdge Value.same d edge.toValue = .ok { d with edges := d.edges ++ [edge.reloaded] } := by
  have hrecord : edge.toValue = .record (fixedFields edge ++ givenField "verb" edge.verb) := rfl
  rw [hrecord]
  generalize hfields : fixedFields edge ++ givenField "verb" edge.verb = fields
  have hsource : endpoint? fields "sourceId" "source_id" = some edge.source := by
    rw [← hfields]
    rfl
  have htarget : endpoint? fields "targetId" "target_id" = some edge.target := by
    rw [← hfields]
    rfl
  have hfieldId : (Value.record fields).field "id" = edge.id := by
    rw [← hfields]
    rfl
  have htype : (Value.record fields).field "type" = .text edge.type.key := by
    rw [← hfields]
    rfl
  have hfieldLabel : (Value.record fields).field "label" = edge.label := by
    rw [← hfields]
    rfl
  have hverb : (Value.record fields).field "verb" = edge.verb.orElse .null := by
    rw [← hfields, Value.field, Table.get?_append]
    exact get?_givenField_self "verb" edge.verb
  have hread : Payload.edgeType (.text edge.type.key) = .ok edge.type := by
    rw [Payload.edgeType, EdgeType.ofValue?_key]
    rfl
  -- An empty label does not count as given, but it is what takes the place of one.
  have hkept : edge.label.orElse (.text "") = edge.label := by
    rw [hlabel, Value.orElse]
    split
    · rfl
    · next hempty =>
      have hlabelEmpty : label = "" := by
        simpa [Value.isTruthy] using hempty
      rw [hlabelEmpty]
  have hfree : d.edges.any (fun other => other.id.same edge.id) = false := by
    rw [List.any_eq_false]
    intro other hother hsame
    rw [hid, Value.same_text_iff] at hsame
    exact hnew other hother (hsame.trans hid.symm)
  have hkey : edge.id.isKey = true := by
    rw [hid]
    rfl
  simp only [addEdge, hsource, htarget, hfieldId, Value.orElse_of_isTruthy hgiven, hkey, hfree,
    htype, hread, hfieldLabel, hkept, hverb, Bool.not_true, Bool.false_eq_true, if_false, bind,
    Except.bind, pure, Except.pure]
  rfl

theorem foldlM_addEdge {edges : List Edge} (d : Diagram)
    (htext : ∀ edge ∈ edges, ∃ s, edge.id = .text s)
    (hgiven : ∀ edge ∈ edges, edge.id.isTruthy = true)
    (hlabel : ∀ edge ∈ edges, ∃ s, edge.label = .text s)
    (hnodup : (edges.map Edge.id).Nodup)
    (hnew : ∀ edge ∈ edges, ∀ other ∈ d.edges, other.id ≠ edge.id) :
    (edges.map Edge.toValue).foldlM (addEdge Value.same) d
      = .ok { d with edges := d.edges ++ edges.map Edge.reloaded } := by
  -- The edges read so far are at the end of the diagram, and no later edge has an id of theirs.
  induction edges generalizing d with
  | nil => rw [List.map_nil, List.map_nil, List.append_nil]; rfl
  | cons edge rest ih =>
    rw [List.forall_mem_cons] at htext hgiven hlabel hnew
    rw [List.map_cons, List.nodup_cons] at hnodup
    obtain ⟨id, hid⟩ := htext.1
    obtain ⟨label, hlabelText⟩ := hlabel.1
    have hrest := ih { d with edges := d.edges ++ [edge.reloaded] } htext.2 hgiven.2 hlabel.2
      hnodup.2 fun other hother before hbefore => by
        rcases List.mem_append.1 hbefore with hbefore | hbefore
        · exact hnew.2 other hother before hbefore
        · rw [List.mem_singleton.1 hbefore]
          exact fun hsame => hnodup.1 (List.mem_map.2 ⟨other, hother, hsame.symm⟩)
    rw [List.map_cons, List.foldlM_cons, addEdge_toValue hid hgiven.1 hlabelText hnew.1]
    refine hrest.trans ?_
    rw [List.map_cons, List.append_assoc, List.singleton_append]

/-! ## Diagrams -/

theorem addNode_toValue {d : Diagram} {key : String} {node : Node} (hkey : node.id = key)
    (hread : Payload.node node.toValue = .ok node.reloaded) (hnew : key ∉ d.nodes.keys) :
    addNode d node.toValue = .ok { d with nodes := d.nodes ++ [(key, node.reloaded)] } := by
  have hid : node.reloaded.id = key := hkey
  have hfree : d.hasNode key = false := by
    rw [← Bool.not_eq_true, Diagram.hasNode, ← Table.mem_keys_iff]
    exact hnew
  rw [addNode, hread]
  simp only [bind, Except.bind, hid, hfree, Bool.false_eq_true, if_false, pure, Except.pure,
    Diagram.putNode, Table.put_of_not_mem hnew]

theorem foldlM_addNode {nodes : Table Node} (d : Diagram)
    (hkey : ∀ key node, (key, node) ∈ nodes → node.id = key)
    (hread : ∀ key node, (key, node) ∈ nodes → Payload.node node.toValue = .ok node.reloaded)
    (hnodup : nodes.keys.Nodup) (hnew : ∀ key ∈ nodes.keys, key ∉ d.nodes.keys) :
    (nodes.values.map Node.toValue).foldlM addNode d
      = .ok { d with nodes := d.nodes ++ nodes.map fun entry => (entry.1, entry.2.reloaded) } := by
  induction nodes generalizing d with
  | nil => rw [List.map_nil, List.append_nil]; rfl
  | cons entry rest ih =>
    obtain ⟨key, node⟩ := entry
    rw [Table.keys, List.map_cons, List.nodup_cons] at hnodup
    rw [Table.keys, List.map_cons, List.forall_mem_cons] at hnew
    have hhere := addNode_toValue (hkey key node List.mem_cons_self)
      (hread key node List.mem_cons_self) hnew.1
    have hrest := ih { d with nodes := d.nodes ++ [(key, node.reloaded)] }
      (fun k n hmem => hkey k n (List.mem_cons_of_mem _ hmem))
      (fun k n hmem => hread k n (List.mem_cons_of_mem _ hmem)) hnodup.2
      fun other hother hbefore => by
        rw [Table.keys, List.map_append, List.mem_append] at hbefore
        rcases hbefore with hbefore | hbefore
        · exact hnew.2 other hother hbefore
        · exact hnodup.1 (List.mem_singleton.1 hbefore ▸ hother)
    rw [Table.values, List.map_cons, List.map_cons, List.foldlM_cons, hhere]
    refine hrest.trans ?_
    rw [List.map_cons, List.append_assoc, List.singleton_append]

theorem items_list {value : Value} {key : String} {found : List Value}
    (h : value.field key = .list found) : items value key = .ok found := by
  rw [items, h]
  cases found <;> rfl

theorem orElse_int (n : Int) : (Value.int n).orElse (.int 0) = .int n := by
  rw [Value.orElse]
  split
  · rfl
  · next hzero =>
    have hn : n = 0 := by
      simpa [Value.isTruthy] using hzero
    rw [hn]

/-- A well-formed and complete diagram is read back from its snapshot if no name or type is blank,
all edges have texts for labels, and no option is negative. -/
theorem diagram_snapshot {d : Diagram} (hwf : d.WellFormed) (hcomplete : d.IsComplete)
    (hnamed : ∀ node ∈ d.nodes.values, node.isNamed = true)
    (hlabels : ∀ edge ∈ d.edges, ∃ s, edge.label = .text s)
    (hoptions : d.options.isNonNegative = true) : diagram d.snapshot = .ok d.reloaded := by
  obtain ⟨width, hwidth⟩ := hcomplete.width
  obtain ⟨height, hheight⟩ := hcomplete.height
  have hnodes : items d.snapshot "nodes" = .ok (d.nodes.values.map Node.toValue) := items_list rfl
  have hedges : items d.snapshot "edges" = .ok (d.edges.map Edge.toValue) := items_list rfl
  have hlayout : Payload.options (d.snapshot.field "layout") Options.standard = .ok d.options :=
    Payload.options_toValue hoptions _
  have hfieldWidth : d.snapshot.field "width" = .int width := hwidth
  have hfieldHeight : d.snapshot.field "height" = .int height := hheight
  have hread : ∀ key node, (key, node) ∈ d.nodes →
      Payload.node node.toValue = .ok node.reloaded := fun key node hmem =>
    Payload.node_toValue (hwf.node key node hmem) (hcomplete.node key node hmem)
      (hnamed node (List.mem_map_of_mem hmem))
  have haddNodes : (d.nodes.values.map Node.toValue).foldlM addNode
      ⟨[], [], d.options, .int width, .int height⟩
        = .ok { d.reloaded with edges := [], width := .int width, height := .int height } :=
    foldlM_addNode _ hwf.id_eq_key hread hwf.keys_nodup fun _ _ => List.not_mem_nil
  have haddEdges : (d.edges.map Edge.toValue).foldlM (addEdge Value.same)
      { d.reloaded with edges := [], width := .int width, height := .int height }
        = .ok { d.reloaded with width := .int width, height := .int height } :=
    foldlM_addEdge _ hwf.edgeId_text hcomplete.edge hlabels hwf.edgeIds_nodup
      fun _ _ _ hmem => by cases hmem
  have hbounds : { d.reloaded with width := .int width, height := .int height } = d.reloaded := by
    rw [← hwidth, ← hheight]
    rfl
  rw [Diagram.snapshot] at hnodes hedges hlayout hfieldWidth hfieldHeight ⊢
  simp only [diagram, diagramBy, hnodes, hedges, hlayout, hfieldWidth, hfieldHeight, orElse_int,
    bind, Except.bind, haddNodes, haddEdges, hbounds]

end Snapshot

end BlockDiagram
