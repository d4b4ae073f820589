import BlockDiagram.Proofs.Diagram.Footprint
import BlockDiagram.Proofs.Drawing.Centres
import BlockDiagram.Proofs.Service.Kept

/-!
# What an edit leaves alone

An edit of a kept diagram touches one entry, or the options, and leaves everything else as it is, in
its place. Then the diagram is laid out, unless a node was moved by hand, and that touches
coordinates and bounds alone. So an edit that neither adds nor removes a node nor changes attributes
leaves the files as they are.

* `Command.Changes`: what an edit makes of a diagram before it is laid out.
* `Service.exists_changes_of_edit`: every edit that succeeds makes just that.
* `Service.footprint_of_run`: what an edit of a kept diagram leaves alone.
-/

namespace BlockDiagram

open Outcome

/-- What an edit makes of a diagram before it is laid out: which entry it adds, takes out or puts in
the place of which other one. -/
def Command.Changes (old changed : Diagram) : Command → Prop
  | .updateLayout payload => ∃ options, Payload.options payload old.options = .ok options ∧
      changed = { old with options := options }
  | .addNode payload => ∃ node, Payload.node payload = .ok node ∧ old.hasNode node.id = false ∧
      changed = { old with nodes := old.nodes ++ [(node.id, node)] }
  | .updateNode id patch =>
      ∃ (key : String) (node : Node) (p : Payload) (before after : Table Node),
      id = .text key ∧ Payload.ofValue Payload.nodeSpellings patch = .ok p ∧
      old.nodes = before ++ (key, node) :: after ∧
      changed = { old with nodes := before ++ (key, node.patched p) :: after }
  | .deleteNode id => ∃ (key : String) (node : Node) (before after : Table Node),
      id = .text key ∧ old.nodes = before ++ (key, node) :: after ∧
      changed = { old with
        nodes := before ++ after
        edges := old.edges.filter fun edge => !edge.touches key }
  | .addEdge payload => ∃ (p : Payload) (edge : Edge),
      Payload.ofValue Payload.edgeSpellings payload = .ok p ∧
      p.entry "source_id" = .text edge.source ∧ p.entry "target_id" = .text edge.target ∧
      old.hasEdge edge.id = false ∧ changed = { old with edges := old.edges ++ [edge] }
  | .updateEdge ref patch => ∃ (edge : Edge) (p : Payload) (type : EdgeType)
      (before after : List Edge), old.resolve ref = .ok edge ∧
      Payload.ofValue Payload.edgeSpellings patch = .ok p ∧
      (p.has "type" = false → type = edge.type) ∧ old.edges = before ++ edge :: after ∧
      changed = { old with edges := before ++ edge.patched p type :: after }
  | .deleteEdge ref => ∃ (edge : Edge) (before after : List Edge), old.resolve ref = .ok edge ∧
      old.edges = before ++ edge :: after ∧ changed = { old with edges := before ++ after }
  | _ => False

/-- Whether an edit changes nothing that is written: it is of an edge or of the options, or its
patch of a node names no attributes. -/
def Command.LeavesFiles : Command → Prop
  | .updateLayout _ => True
  | .addEdge _ => True
  | .updateEdge _ _ => True
  | .deleteEdge _ => True
  | .updateNode _ patch =>
      ∀ p, Payload.ofValue Payload.nodeSpellings patch = .ok p → p.has "config" = false
  | _ => False

namespace Service

variable {settings : Settings}

/-- An edit of a well-formed and complete diagram that succeeds changes it as it should, and then
lays it out unless a node was moved by hand. -/
theorem exists_changes_of_edit {c : Command} {edit : Diagram → Except Error Diagram}
    {old new : Diagram} (hedit : edit? settings c = some edit) (hold : old.WellFormed)
    (hcomplete : old.IsComplete) (hnew : edit old = .ok new) :
    ∃ changed, c.Changes old changed ∧ (c.MovesByHand settings → new = changed) ∧
      (¬ c.MovesByHand settings → changed.refreshed = .ok new) := by
  cases c with
  | updateLayout payload =>
    cases hedit
    obtain ⟨options, hoptions, hnew⟩ := bind_eq_ok.1 hnew
    refine ⟨_, ⟨options, hoptions, rfl⟩, False.elim, fun _ => ?_⟩
    rw [Diagram.refreshed_with_options]
    exact hnew
  | addNode payload =>
    cases hedit
    obtain ⟨changed, hchanged, hnew⟩ := bind_eq_ok.1 hnew
    exact ⟨changed, Diagram.exists_of_appendNode hchanged, False.elim, fun _ => hnew⟩
  | updateNode id patch =>
    cases hedit
    obtain ⟨key, node, p, before, after, hid, hp, hnodes, hmoved, hlaid⟩ :=
      Diagram.exists_of_withNodeChanged hcomplete hnew
    have hmoves : (Command.updateNode id patch).MovesByHand settings ↔
        p.has "x" = true ∨ p.has "y" = true ∨ settings.relayout = false := by
      rw [Command.MovesByHand]
      constructor
      · rintro (hoff | ⟨q, hq, hx | hy⟩)
        · exact .inr (.inr hoff)
        · cases hp.symm.trans hq
          exact .inl hx
        · cases hp.symm.trans hq
          exact .inr (.inl hy)
      · rintro (hx | hy | hoff)
        · exact .inr ⟨p, hp, .inl hx⟩
        · exact .inr ⟨p, hp, .inr hy⟩
        · exact .inl hoff
    refine ⟨_, ⟨key, node, p, before, after, hid, hp, hnodes, rfl⟩, ?_, ?_⟩
    · exact fun h => hmoved (hmoves.1 h)
    · exact fun h => hlaid (fun hmoves' => h (hmoves.2 hmoves'))
  | deleteNode id =>
    cases hedit
    obtain ⟨⟨key, node⟩, hnode, hnew⟩ := bind_eq_ok.1 hnew
    obtain ⟨hid, hfound⟩ := Diagram.nodeAt_eq_ok hnode
    obtain ⟨before, after, hnodes, -⟩ := Table.exists_append_of_get? hfound
    refine ⟨_, ⟨key, node, before, after, hid, hnodes, rfl⟩, False.elim, fun _ => ?_⟩
    rw [← Diagram.removeNode_append hold hnodes]
    exact hnew
  | addEdge payload =>
    cases hedit
    obtain ⟨changed, hchanged, hnew⟩ := bind_eq_ok.1 hnew
    exact ⟨changed, Diagram.exists_of_appendEdge hchanged, False.elim, fun _ => hnew⟩
  | updateEdge ref patch =>
    cases hedit
    obtain ⟨edge, p, type, before, after, hedge, hp, htype, hedges, hlaid⟩ :=
      Diagram.exists_of_withEdgeChanged hold hnew
    exact ⟨_, ⟨edge, p, type, before, after, hedge, hp, htype, hedges, rfl⟩, False.elim,
      fun _ => hlaid⟩
  | deleteEdge ref =>
    cases hedit
    obtain ⟨edge, hedge, hnew⟩ := bind_eq_ok.1 hnew
    obtain ⟨before, after, hedges, hremoved⟩ :=
      Diagram.removeEdge_append hold (Diagram.mem_edges_of_resolve hedge)
    refine ⟨_, ⟨edge, before, after, hedge, hedges, rfl⟩, False.elim, fun _ => ?_⟩
    rw [← hremoved]
    exact hnew
  | get => cases hedit
  | delete => cases hedit
  | enhance => cases hedit
  | generateCode withHeader => cases hedit

/-- Where what is written of a node is not named in a patch, it is not changed. -/
theorem written_patched {node : Node} {p : Payload} (h : p.has "config" = false) :
    (node.patched p).written = node.written := by
  rw [Table.has, Option.isSome_eq_false_iff, Option.isNone_iff_eq_none] at h
  refine Node.written_congr rfl ?_
  rw [Node.patched, h]
  rfl

theorem written_of_changes {c : Command} {old changed : Diagram} (hleaves : c.LeavesFiles)
    (h : c.Changes old changed) : changed.written = old.written := by
  cases c with
  | updateLayout payload =>
    obtain ⟨options, -, rfl⟩ := h
    rfl
  | updateNode id patch =>
    obtain ⟨key, node, p, before, after, -, hp, hnodes, rfl⟩ := h
    simp only [Diagram.written, Table.values, hnodes, List.map_append, List.map_cons,
      written_patched (hleaves p hp)]
  | addEdge payload =>
    obtain ⟨p, edge, -, -, -, -, rfl⟩ := h
    rfl
  | updateEdge ref patch =>
    obtain ⟨edge, p, type, before, after, -, -, -, -, rfl⟩ := h
    rfl
  | deleteEdge ref =>
    obtain ⟨edge, before, after, -, -, rfl⟩ := h
    rfl
  | _ => exact False.elim hleaves

/-- An edit of a kept diagram that succeeds changes just the entry or the options that it is about.
If it moves a node by hand, nothing else is different. Otherwise coordinates and bounds may be, and
they are those of the drawing of the new diagram. An edit that neither adds nor removes a node nor
names attributes leaves the files as they are, or the reason why there are none. -/
theorem footprint_of_run {s : Service} (hs : make? settings = .ok s)
    (steps : List (Settings × Option Reply × Step)) {id : String} {old new : Diagram}
    (hold : (s.run steps).store.peek? id = some old) (chosen : Settings) (c : Command)
    {edit : Diagram → Except Error Diagram} (hedit : edit? chosen c = some edit)
    (hnew : edit old = .ok new) :
    ∃ changed, c.Changes old changed ∧ new.unplaced = changed.unplaced ∧
      (c.MovesByHand chosen → new = changed) ∧
      (¬ c.MovesByHand chosen →
        ∃ drawing, new.drawing new.options = .ok drawing ∧ new.IsPlacedBy drawing) ∧
      (c.LeavesFiles → ∀ extension withHeader,
        new.files extension withHeader = old.files extension withHeader) := by
  obtain ⟨hwf, hcomplete⟩ := sound_of_kept hs hold
  obtain ⟨changed, hchanges, hmoved, hlaid⟩ := exists_changes_of_edit hedit hwf hcomplete hnew
  have hunplaced : new.unplaced = changed.unplaced := by
    by_cases hmoves : c.MovesByHand chosen
    · rw [hmoved hmoves]
    · exact Diagram.unplaced_laidOut (hlaid hmoves)
  refine ⟨changed, hchanges, hunplaced, hmoved, fun hmoves => ?_, fun hleaves => ?_⟩
  · exact (wellFormed_of_edit hedit hwf hnew).exists_drawing_of_refreshed
      (refreshed_of_edit hedit hmoves hnew)
  · exact Diagram.files_congr ((Diagram.written_of_unplaced_eq hunplaced).trans
      (written_of_changes hleaves hchanges))

/-- Where a diagram has the second variable of the short run. -/
def zoneAt (d : Diagram) : Option Value.Number :=
  (d.nodes.get? "var.zone").bind fun node => node.y.number?

/-- The first variable of the short run is moved, which leaves everything else and the files alone,
and it is taken away with its edge, which moves the second one too. -/
theorem footprint_of_shortRun : ∃ s old moved left, make? Settings.standard = .ok s ∧
    (s.run shortRun).store.peek? "d" = some old ∧
    old.withNodeChanged (.text "var.region") (.record [("x", .int 5)]) true = .ok moved ∧
    old.withoutNode (.text "var.region") = .ok left ∧
    (Command.updateNode (.text "var.region") (.record [("x", .int 5)])).Changes old moved ∧
    (∀ extension withHeader, moved.files extension withHeader = old.files extension withHeader) ∧
    (∃ changed, (Command.deleteNode (.text "var.region")).Changes old changed ∧
      left.unplaced = changed.unplaced) ∧
    zoneAt old = some (.whole 180) ∧ zoneAt left = some (.whole 200) ∧
    ∃ drawing, left.drawing left.options = .ok drawing ∧ left.IsPlacedBy drawing := by
  obtain ⟨s, hs⟩ : ∃ s, make? Settings.standard = .ok s := ⟨_, rfl⟩
  have hedits : ((s.run shortRun).store.peek? "d").any (fun d =>
      (d.withNodeChanged (.text "var.region") (.record [("x", .int 5)]) true).isOk
        && zoneAt d == some (.whole 180)
        && ((d.withoutNode (.text "var.region")).map zoneAt).toOption
          == some (some (.whole 200))) = true := by
    cases hs
    decide +kernel
  obtain ⟨old, hold, hedits⟩ := (Option.any_eq_true _ _).1 hedits
  simp only [Bool.and_eq_true, beq_iff_eq] at hedits
  obtain ⟨⟨hmoved, hzone⟩, hleft⟩ := hedits
  obtain ⟨moved, hmoved⟩ := exists_eq_ok_of_isOk hmoved
  obtain ⟨left, hleft, hcentred⟩ := exists_eq_ok_of_map hleft
  obtain ⟨changed, hchanges, -, hsame, -, hfiles⟩ := footprint_of_run hs shortRun hold
    .standard (.updateNode (.text "var.region") (.record [("x", .int 5)])) rfl hmoved
  obtain ⟨without, hwithout, hunplaced, -, hplaced, -⟩ := footprint_of_run hs shortRun hold
    .standard (.deleteNode (.text "var.region")) rfl hleft
  have hbyHand : (Command.updateNode (.text "var.region") (.record [("x", .int 5)])).MovesByHand
      .standard := .inr ⟨_, rfl, .inl rfl⟩
  have hleaves : (Command.updateNode (.text "var.region") (.record [("x", .int 5)])).LeavesFiles
      := by
    rintro p ⟨⟩
    rfl
  refine ⟨s, old, moved, left, hs, hold, hmoved, hleft, ?_, hfiles hleaves,
    ⟨without, hwithout, hunplaced⟩, hzone, hcentred, hplaced id⟩
  rw [hsame hbyHand]
  exact hchanges

end Service

end BlockDiagram
