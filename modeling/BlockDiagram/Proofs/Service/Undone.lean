import BlockDiagram.Proofs.Diagram.Relabelled
import BlockDiagram.Proofs.Service.Footprint

/-!
# What is added can be taken out again

A new node goes behind all others under an id that is new, and no edge touches it; a new edge goes
behind all others under an id that is free. So taking it out again leaves the nodes and edges that
were there before, moved by the layout in between. Layout reads none of the coordinates and bounds
that it writes, so the diagram comes out as if it had been laid out without the detour.

* `WellFormed.refreshed_eq_of_unplaced_eq`: layout forgets where nodes were.
* `WellFormed.withoutNode_withNode`, `WellFormed.withoutEdge_withEdge`: an edit and its inverse.
* `Service.refreshed_of_kept`: a kept diagram is laid out, unless a node was moved by hand.
* `Service.undone_of_kept`: what comes of adding to a kept diagram and taking out again.
-/

namespace BlockDiagram

open Outcome

namespace Diagram

variable {d d' : Diagram}

/-! ## Layout forgets where nodes were -/

theorem drawing_unplaced (d : Diagram) (options : Options) :
    d.unplaced.drawing options = d.drawing options := by
  have hkeys : d.unplaced.nodes.keys = d.nodes.keys := Table.keys_map _ d.nodes
  refine drawing_congr ?_ (fun id => ?_) options
  · rw [layering, layering, digraph_congr hkeys rfl]
  · rw [size?, size?, unplaced, Table.get?_map, Option.map_map]
    rfl

/-- Where every node has a centre, it does not count where the nodes were. -/
theorem placed_unplaced {options : Options} {drawing : Drawing}
    (h : ∀ id ∈ d.nodes.keys, id ∈ drawing.centres.keys) :
    d.unplaced.placed options drawing = d.placed options drawing := by
  have hmoved : ∀ entry ∈ d.nodes, moved drawing.centres entry.1 entry.2.unplaced
      = moved drawing.centres entry.1 entry.2 := by
    intro entry hentry
    have hkey := h entry.1 (List.mem_map_of_mem hentry)
    obtain ⟨⟨x, y⟩, hcentre⟩ := Option.isSome_iff_exists.1 (Table.mem_keys_iff.1 hkey)
    simp only [moved, hcentre, Node.unplaced]
  have hnodes : (d.unplaced.nodes.map fun entry => (entry.1, moved drawing.centres entry.1 entry.2))
      = d.nodes.map fun entry => (entry.1, moved drawing.centres entry.1 entry.2) := by
    rw [unplaced, List.map_map]
    refine List.map_congr_left fun entry hentry => ?_
    exact congrArg (Prod.mk entry.1) (hmoved entry hentry)
  simp only [placed]
  rw [hnodes]
  rfl

theorem WellFormed.laidOut_unplaced (hd : d.WellFormed) (options : Options) :
    d.unplaced.laidOut options = d.laidOut options := by
  rw [Diagram.laidOut, Diagram.laidOut, drawing_unplaced]
  cases hdrawing : d.drawing options with
  | error cause => rfl
  | ok drawing =>
    exact congrArg Except.ok (placed_unplaced fun id hid => (hd.mem_keys_centres hdrawing).2 hid)

/-- Diagrams that differ in coordinates and bounds alone are laid out alike, or fail alike. -/
theorem WellFormed.refreshed_eq_of_unplaced_eq (hd : d.WellFormed) (hd' : d'.WellFormed)
    (h : d'.unplaced = d.unplaced) : d'.refreshed = d.refreshed := by
  have hoptions : d'.unplaced.options = d.unplaced.options := congrArg Diagram.options h
  rw [refreshed, refreshed, ← hd'.laidOut_unplaced, ← hd.laidOut_unplaced, h]
  exact congrArg d.unplaced.laidOut hoptions

/-! ## Layout that is not disturbed -/

/-- A diagram that layout does not change is where a drawing has it. -/
theorem refreshed_eq_self_iff : d.refreshed = .ok d ↔
    ∃ drawing, d.drawing d.options = .ok drawing ∧ d.placed d.options drawing = d := by
  rw [refreshed, laidOut]
  cases d.drawing d.options with
  | error cause => simp
  | ok drawing => simp

theorem moved_relabelNode (centres : Table (Int × Int)) (id : String) (suggestion : Value)
    (node : Node) : moved centres id (relabelNode suggestion node)
      = relabelNode suggestion (moved centres id node) := by
  unfold moved
  split <;> rfl

/-- Relabelling leaves nodes where a drawing has them. -/
theorem placed_relabelled {options : Options} {drawing : Drawing}
    (h : d.placed options drawing = d) (answer : Table Value) :
    (d.relabelled answer).placed options drawing = d.relabelled answer := by
  refine relabelled_induction (P := fun d => d.placed options drawing = d) ?_ ?_ h answer
  · intro d suggestion h
    calc (d.takeNodeSuggestion suggestion).placed options drawing
      _ = (d.placed options drawing).takeNodeSuggestion suggestion := by
        simp only [placed, takeNodeSuggestion, List.map_map]
        congr 1
        refine List.map_congr_left fun entry _ => ?_
        simp only [Function.comp_apply]
        split
        · rw [moved_relabelNode]
        · rfl
      _ = d.takeNodeSuggestion suggestion := by rw [h]
  · intro d suggestion h
    calc (d.takeEdgeSuggestion suggestion).placed options drawing
      _ = (d.placed options drawing).takeEdgeSuggestion suggestion := rfl
      _ = d.takeEdgeSuggestion suggestion := by rw [h]

/-! ## Nodes -/

theorem unplaced_removeNode (d : Diagram) (key : String) :
    (d.removeNode key).unplaced = d.unplaced.removeNode key := by
  simp only [unplaced, removeNode, Table.erase_map]

/-- No edge touches what is no node. -/
theorem WellFormed.not_touches (hd : d.WellFormed) {key : String} (hnew : d.hasNode key = false)
    {edge : Edge} (hedge : edge ∈ d.edges) : edge.touches key = false := by
  have hends : ∀ id, d.hasNode id = true → id ≠ key := by
    rintro id hid rfl
    rw [hnew] at hid
    cases hid
  simp only [Edge.touches, Bool.or_eq_false_iff, beq_eq_false_iff_ne]
  exact ⟨hends _ (hd.source edge hedge), hends _ (hd.target edge hedge)⟩

theorem WellFormed.removeNode_append_node (hd : d.WellFormed) {node : Node}
    (hnew : d.hasNode node.id = false)
    (happended : WellFormed { d with nodes := d.nodes ++ [(node.id, node)] }) :
    Diagram.removeNode { d with nodes := d.nodes ++ [(node.id, node)] } node.id = d := by
  have hedges : (d.edges.filter fun edge => !edge.touches node.id) = d.edges := by
    refine List.filter_eq_self.2 fun edge hedge => ?_
    rw [hd.not_touches hnew hedge]
    rfl
  rw [removeNode_append happended rfl]
  simp only [hedges, List.append_nil]

/-- A new node comes last under a new id. Without it the diagram is the one that it was, laid
out. -/
theorem WellFormed.withoutNode_withNode (hd : d.WellFormed) {payload : Value} {added : Diagram}
    (h : d.withNode payload = .ok added) :
    ∃ key, d.hasNode key = false ∧ added.nodes.keys = d.nodes.keys ++ [key] ∧
      added.withoutNode (.text key) = d.refreshed := by
  obtain ⟨changed, hchanged, h⟩ := bind_eq_ok.1 h
  have hchangedWf := hd.appendNode hchanged
  have haddedWf : added.WellFormed := hchangedWf.laidOut h
  obtain ⟨node, -, hnew, rfl⟩ := exists_of_appendNode hchanged
  have hkeys : added.nodes.keys = d.nodes.keys ++ [node.id] := by
    rw [keys_of_skeleton_eq (skeleton_laidOut h), Table.keys, List.map_append]
    rfl
  refine ⟨node.id, hnew, hkeys, ?_⟩
  have hhas : added.nodes.has node.id = true := by
    rw [← Table.mem_keys_iff, hkeys]
    simp
  obtain ⟨found, hfound⟩ := Option.isSome_iff_exists.1 hhas
  have hat : added.nodeAt (.text node.id) = .ok (node.id, found) := by
    simp only [nodeAt, hfound]
  have hunplaced : (added.removeNode node.id).unplaced = d.unplaced := by
    rw [unplaced_removeNode, unplaced_laidOut h, ← unplaced_removeNode]
    exact congrArg unplaced (hd.removeNode_append_node hnew hchangedWf)
  rw [withoutNode, hat]
  exact hd.refreshed_eq_of_unplaced_eq (haddedWf.removeNode node.id) hunplaced

/-! ## Edges -/

theorem removeEdge_append_edge {edge : Edge} {id : String} (hid : edge.id = .text id)
    (hnew : d.hasEdge edge.id = false) :
    removeEdge { d with edges := d.edges ++ [edge] } edge = d := by
  have hsame : isSameEdge edge edge = true := by
    rw [isSameEdge, hid, Value.identical_text, Edge.joins]
    simp
  have hothers : (d.edges.filter fun other => !isSameEdge other edge) = d.edges := by
    refine List.filter_eq_self.2 fun other hother => ?_
    by_contra hfound
    have hidentical : other.id = edge.id := by
      simp only [Bool.not_eq_true', Bool.not_eq_false, isSameEdge, Bool.and_eq_true, hid,
        Value.identical_text_iff] at hfound
      rw [hid, hfound.1]
    have htaken : d.hasEdge (.text id) = true :=
      hasEdge_text_iff.2 ⟨other, hother, hidentical.trans hid⟩
    rw [← hid, hnew] at htaken
    cases htaken
  rw [removeEdge, List.filter_append, hothers, List.filter_cons_of_neg (by simp [hsame]),
    List.filter_nil, List.append_nil]

/-- A new edge comes last under a free id. Without it the diagram is the one that it was, laid
out. -/
theorem WellFormed.withoutEdge_withEdge (hd : d.WellFormed) {payload : Value} {added : Diagram}
    (h : d.withEdge payload = .ok added) :
    ∃ id, d.hasEdge (.text id) = false ∧
      added.edges.map Edge.id = d.edges.map Edge.id ++ [.text id] ∧
      added.withoutEdge (.text id) = d.refreshed := by
  obtain ⟨changed, hchanged, h⟩ := bind_eq_ok.1 h
  have haddedWf : added.WellFormed := (hd.appendEdge hchanged).laidOut h
  obtain ⟨p, edge, -, -, -, hnew, rfl⟩ := exists_of_appendEdge hchanged
  have hedges : added.edges = d.edges ++ [edge] := congrArg Diagram.edges (unplaced_laidOut h)
  have hmem : edge ∈ added.edges := by simp [hedges]
  obtain ⟨id, hid⟩ := haddedWf.edgeId_text edge hmem
  have hfound := haddedWf.edge?_id hmem
  rw [hid] at hfound
  have hresolved : added.resolve (.text id) = .ok edge := by
    simp only [resolve, hfound]
  have hunplaced : (added.removeEdge edge).unplaced = d.unplaced := by
    calc (added.removeEdge edge).unplaced
      _ = added.unplaced.removeEdge edge := rfl
      _ = (Diagram.removeEdge { d with edges := d.edges ++ [edge] } edge).unplaced := by
        rw [unplaced_laidOut h]
        rfl
      _ = d.unplaced := by rw [removeEdge_append_edge hid hnew]
  refine ⟨id, hid ▸ hnew, by simp [hedges, hid], ?_⟩
  rw [withoutEdge, hresolved]
  exact hd.refreshed_eq_of_unplaced_eq (haddedWf.removeEdge edge) hunplaced

end Diagram

namespace Service

variable {settings : Settings}

/-- A kept diagram that no step moved by hand is not changed by laying it out. -/
theorem refreshed_of_kept {s : Service} (hs : make? settings = .ok s)
    {steps : List (Settings × Option Reply × Step)} {id : String}
    (hmoves : ∀ chosen reply c, (chosen, reply, Step.on id c) ∈ steps → ¬ c.MovesByHand chosen)
    {d : Diagram} (hd : (s.run steps).store.peek? id = some d) : d.refreshed = .ok d := by
  suffices hall : d.WellFormed ∧ d.refreshed = .ok d from hall.2
  refine kept_induction (P := fun d => d.WellFormed ∧ d.refreshed = .ok d) hs ?_ ?_ hd
  · intro chosen reply configuration layout d _ hnew
    exact ⟨wellFormed_of_newDiagram hnew, refreshed_of_newDiagram hnew⟩
  · rintro chosen reply c change old new hmem hchange ⟨hwf, hrefreshed⟩ hnew
    refine ⟨wellFormed_of_change hchange hwf hnew, ?_⟩
    rcases edit_or_relabelled hchange with hedit | ⟨answer, rfl⟩
    · exact refreshed_of_edit hedit (hmoves chosen reply c hmem) hnew
    · cases hnew
      obtain ⟨drawing, hdrawing, hplaced⟩ := Diagram.refreshed_eq_self_iff.1 hrefreshed
      have hoptions := (Diagram.drawnAlike_relabelled old answer).2
      refine Diagram.refreshed_eq_self_iff.2 ⟨drawing, ?_, ?_⟩
      · rw [hoptions, hwf.drawing_relabelled, hdrawing]
      · rw [hoptions, Diagram.placed_relabelled hplaced]

/-- Where a node or an edge is added to a kept diagram, it comes last under a new id. Taking it out
under that id has the outcome of laying out the diagram that was kept: the same diagram, or the same
failure. A diagram that its layout does not change is restored. -/
theorem undone_of_kept {s : Service} (hs : make? settings = .ok s)
    (steps : List (Settings × Option Reply × Step)) {id : String} {d : Diagram}
    (hd : (s.run steps).store.peek? id = some d) :
    (∀ payload added, d.withNode payload = .ok added →
      ∃ key, d.hasNode key = false ∧ added.nodes.keys = d.nodes.keys ++ [key] ∧
        added.withoutNode (.text key) = d.refreshed ∧
        (d.refreshed = .ok d → added.withoutNode (.text key) = .ok d)) ∧
    ∀ payload added, d.withEdge payload = .ok added →
      ∃ edgeId, d.hasEdge (.text edgeId) = false ∧
        added.edges.map Edge.id = d.edges.map Edge.id ++ [.text edgeId] ∧
        added.withoutEdge (.text edgeId) = d.refreshed ∧
        (d.refreshed = .ok d → added.withoutEdge (.text edgeId) = .ok d) := by
  obtain ⟨hwf, -⟩ := sound_of_kept hs hd
  constructor
  · intro payload added h
    obtain ⟨key, hnew, hkeys, hundone⟩ := hwf.withoutNode_withNode h
    exact ⟨key, hnew, hkeys, hundone, hundone.trans⟩
  · intro payload added h
    obtain ⟨edgeId, hnew, hids, hundone⟩ := hwf.withoutEdge_withEdge h
    exact ⟨edgeId, hnew, hids, hundone, hundone.trans⟩

/-- A third variable is put into the diagram of the short run, and an edge from the second one to
the network. Both times the others move, and the diagram is restored when that is undone. -/
theorem undone_of_shortRun : ∃ s d noded edged, make? Settings.standard = .ok s ∧
    (s.run shortRun).store.peek? "d" = some d ∧ isShort d = true ∧
    d.withNode (.record [("kind", .text "variable"), ("name", .text "home")]) = .ok noded ∧
    d.withEdge (.record [("sourceId", .text "var.zone"), ("targetId", .text "resource.net.main")])
      = .ok edged ∧
    (∃ key, d.hasNode key = false ∧ noded.withoutNode (.text key) = .ok d) ∧
    ∃ edgeId, d.hasEdge (.text edgeId) = false ∧ edged.withoutEdge (.text edgeId) = .ok d := by
  obtain ⟨s, hs⟩ : ∃ s, make? Settings.standard = .ok s := ⟨_, rfl⟩
  have hedits : ((s.run shortRun).store.peek? "d").any (fun d => isShort d
      && (d.withNode (.record [("kind", .text "variable"), ("name", .text "home")])).isOk
      && (d.withEdge (.record [("sourceId", .text "var.zone"),
        ("targetId", .text "resource.net.main")])).isOk) = true := by
    cases hs
    decide +kernel
  obtain ⟨d, hd, hedits⟩ := (Option.any_eq_true _ _).1 hedits
  simp only [Bool.and_eq_true] at hedits
  obtain ⟨⟨hshort, hnoded⟩, hedged⟩ := hedits
  obtain ⟨noded, hnoded⟩ := exists_eq_ok_of_isOk hnoded
  obtain ⟨edged, hedged⟩ := exists_eq_ok_of_isOk hedged
  have hmoves : ∀ chosen reply c, (chosen, reply, Step.on "d" c) ∈ shortRun →
      ¬ c.MovesByHand chosen := by
    intro chosen reply c hmem
    simp only [shortRun, List.mem_cons, Prod.mk.injEq, Step.on.injEq, reduceCtorEq, and_false,
      List.not_mem_nil, or_false, false_or] at hmem
    rcases hmem with ⟨-, -, h, -⟩ | ⟨-, -, -, rfl⟩ | ⟨rfl, -, -, rfl⟩
    · exact absurd h (by decide)
    · exact not_false
    · rintro (hoff | ⟨p, ⟨⟩, hx | hy⟩)
      · cases hoff
      · cases hx
      · cases hy
  have hrefreshed := refreshed_of_kept hs hmoves hd
  obtain ⟨hnodes, hedges⟩ := undone_of_kept hs shortRun hd
  obtain ⟨key, hkey, -, -, hwithout⟩ := hnodes _ noded hnoded
  obtain ⟨edgeId, hedgeId, -, -, hwithoutEdge⟩ := hedges _ edged hedged
  exact ⟨s, d, noded, edged, hs, hd, hshort, hnoded, hedged, ⟨key, hkey, hwithout hrefreshed⟩,
    edgeId, hedgeId, hwithoutEdge hrefreshed⟩

end Service

end BlockDiagram
