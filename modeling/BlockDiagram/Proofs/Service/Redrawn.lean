import BlockDiagram.Proofs.Service.Footprint

/-!
# Kept diagrams can be laid out again

An edit that lays a diagram out is refused if the layout fails, so what it leaves behind can be laid
out again. An edit that moves a node by hand tries no layout. If it leaves the sizes alone, the
drawing is the one that it was; a size that it sets is checked to be a number, but one that is not
a number, or that is too large, has no drawing.

* `Command.ResizesByHand`: the edits that set a size and try no layout.
* `Service.isDrawn_of_change`: all other changes keep a diagram drawn.
* `Service.redrawn_of_run`: without such edits every kept diagram can be laid out again.
* `Service.exists_kept_not_redrawn`: with them it may not.
-/

namespace BlockDiagram

open Outcome

/-- Whether a command sets a size of a node that it moves by hand, so that no layout tries the
size. -/
def Command.ResizesByHand (settings : Settings) : Command → Prop
  | .updateNode node patch => (Command.updateNode node patch).MovesByHand settings ∧
      ∃ p, Payload.ofValue Payload.nodeSpellings patch = .ok p ∧
        (p.has "width" = true ∨ p.has "height" = true)
  | _ => False

namespace Diagram

/-- A diagram that has a drawing. -/
def IsDrawn (d : Diagram) : Prop := ∃ drawing, d.drawing d.options = .ok drawing

variable {d d' : Diagram}

theorem isDrawn_of_refreshed (h : d.refreshed = .ok d') : d.IsDrawn := by
  rw [refreshed, laidOut] at h
  split at h
  · next drawing hdrawing => exact ⟨drawing, hdrawing⟩
  · cases h

theorem IsDrawn.exists_withOptions_null (h : d.IsDrawn) : ∃ new, d.withOptions .null = .ok new := by
  obtain ⟨drawing, hdrawing⟩ := h
  refine ⟨d.placed d.options drawing, bind_eq_ok.2 ⟨d.options, rfl, ?_⟩⟩
  rw [laidOut, hdrawing]

/-- Well-formed diagrams that are drawn alike with the same options are drawn both or none. -/
theorem WellFormed.isDrawn_of_drawnAlike (hd : d.WellFormed) (hd' : d'.WellFormed)
    (halike : d.DrawnAlike d') (hoptions : d'.options = d.options) (h : d'.IsDrawn) :
    d.IsDrawn := by
  obtain ⟨drawing, hdrawing⟩ := h
  refine ⟨drawing, ?_⟩
  rwa [drawing_eq_of_drawnAlike halike hd.hasEdgeOrder hd'.hasEdgeOrder hd.not_isDangling
    hd'.not_isDangling, ← hoptions]

/-! ## Changes that keep sizes -/

/-- A patch that names no size keeps those of all nodes. -/
theorem size?_patched {before after : Table Node} {key : String} {node : Node} {p : Payload}
    (hnodes : d.nodes = before ++ (key, node) :: after) (hwidth : p.has "width" = false)
    (hheight : p.has "height" = false) (id : String) :
    size? { d with nodes := before ++ (key, node.patched p) :: after } id = d.size? id := by
  rw [Table.has, Option.isSome_eq_false_iff, Option.isNone_iff_eq_none] at hwidth hheight
  have hsize : ((node.patched p).width, (node.patched p).height) = (node.width, node.height) := by
    rw [Node.patched, hwidth, hheight]
    rfl
  rw [size?, size?, hnodes, Table.get?_append, Table.get?_append, Table.get?_cons, Table.get?_cons]
  cases before.get? id with
  | some found => rfl
  | none =>
    rw [Option.none_or, Option.none_or]
    split
    · exact congrArg some hsize
    · rfl

theorem links_of_skeleton_eq (h : d'.skeleton = d.skeleton) : d'.links = d.links := by
  have hlinks : ∀ d : Diagram, d.links = (d.skeleton.2.filter fun identity =>
      identity.2.1 != identity.2.2).map Prod.snd := by
    intro d
    rw [links, skeleton, List.filter_map, List.map_map]
    rfl
  rw [hlinks, hlinks, h]

theorem size?_takeNodeSuggestion (d : Diagram) (suggestion : Value) (id : String) :
    (d.takeNodeSuggestion suggestion).size? id = d.size? id := by
  rw [size?, size?, takeNodeSuggestion, Table.get?_map, Option.map_map]
  congr 1
  funext node
  dsimp only [Function.comp]
  split <;> rfl

/-- Polishing changes neither sizes nor options. -/
theorem drawnAlike_relabelled (d : Diagram) (answer : Table Value) :
    (d.relabelled answer).DrawnAlike d ∧ (d.relabelled answer).options = d.options := by
  obtain ⟨hsizes, hoptions⟩ := relabelled_induction
    (P := fun d' => (∀ id, d'.size? id = d.size? id) ∧ d'.options = d.options)
    (fun d' suggestion h =>
      ⟨fun id => (size?_takeNodeSuggestion d' suggestion id).trans (h.1 id), h.2⟩)
    (fun _ _ h => h) ⟨fun _ => rfl, rfl⟩ answer
  refine ⟨⟨hsizes, fun pair => ?_⟩, hoptions⟩
  rw [links_of_skeleton_eq (skeleton_relabelled d answer)]

end Diagram

namespace Service

variable {settings : Settings} {reply : Option Reply}

/-! ## Steps -/

/-- An edit that does not resize by hand leaves behind what can be laid out again. -/
theorem isDrawn_of_edit {c : Command} {edit : Diagram → Except Error Diagram} {old new : Diagram}
    (hedit : edit? settings c = some edit) (hsizes : ¬ c.ResizesByHand settings)
    (hold : old.WellFormed) (hcomplete : old.IsComplete) (hdrawn : old.IsDrawn)
    (hnew : edit old = .ok new) : new.IsDrawn := by
  -- What is moved by hand is not laid out, but it keeps its size, so the old drawing will do.
  by_cases hmoves : c.MovesByHand settings
  · obtain ⟨changed, hchanges, hsame, -⟩ := exists_changes_of_edit hedit hold hcomplete hnew
    cases c with
    | updateNode id patch =>
      obtain ⟨key, node, p, before, after, -, hp, hnodes, rfl⟩ := hchanges
      have hwf := wellFormed_of_edit hedit hold hnew
      rw [hsame hmoves] at hwf ⊢
      rw [Command.ResizesByHand, not_and, not_exists] at hsizes
      have hnamed := hsizes hmoves p
      rw [not_and, not_or, Bool.not_eq_true, Bool.not_eq_true] at hnamed
      obtain ⟨hwidth, hheight⟩ := hnamed hp
      exact hwf.isDrawn_of_drawnAlike hold
        ⟨Diagram.size?_patched hnodes hwidth hheight, fun _ => Iff.rfl⟩ rfl hdrawn
    | _ => exact False.elim hmoves
  · exact Diagram.isDrawn_of_refreshed (refreshed_of_edit hedit hmoves hnew)

theorem isDrawn_of_change {c : Command} {change : Diagram → Except Error Diagram}
    {old new : Diagram} (hchange : change? settings reply c = some change)
    (hsizes : ¬ c.ResizesByHand settings) (hold : old.WellFormed) (hcomplete : old.IsComplete)
    (hdrawn : old.IsDrawn) (hnew : change old = .ok new) : new.IsDrawn := by
  rcases edit_or_relabelled hchange with hedit | ⟨answer, rfl⟩
  · exact isDrawn_of_edit hedit hsizes hold hcomplete hdrawn hnew
  · have hwf := wellFormed_of_change hchange hold hnew
    cases hnew
    obtain ⟨halike, hoptions⟩ := Diagram.drawnAlike_relabelled old answer
    exact hwf.isDrawn_of_drawnAlike hold halike hoptions.symm hdrawn

/-! ## Runs -/

theorem isDrawn_of_kept {s : Service} (hs : make? settings = .ok s)
    {steps : List (Settings × Option Reply × Step)} {id : String}
    (hsizes : ∀ chosen reply c, (chosen, reply, Step.on id c) ∈ steps → ¬ c.ResizesByHand chosen)
    {d : Diagram} (hd : (s.run steps).store.peek? id = some d) : d.IsDrawn := by
  suffices hall : d.WellFormed ∧ d.IsComplete ∧ d.IsDrawn from hall.2.2
  refine kept_induction (P := fun d => d.WellFormed ∧ d.IsComplete ∧ d.IsDrawn) hs ?_ ?_ hd
  · intro chosen reply configuration layout d _ hnew
    exact ⟨wellFormed_of_newDiagram hnew, isComplete_of_newDiagram hnew,
      Diagram.isDrawn_of_refreshed (refreshed_of_newDiagram hnew)⟩
  · rintro chosen reply c change old new hmem hchange ⟨hwf, hcomplete, hdrawn⟩ hnew
    exact ⟨wellFormed_of_change hchange hwf hnew, isComplete_of_change hchange hwf hcomplete hnew,
      isDrawn_of_change hchange (hsizes chosen reply c hmem) hwf hcomplete hdrawn hnew⟩

/-- What a step answers that lays out a kept diagram again. -/
theorem step_updateLayout_null {s : Service} {id : String} {d new : Diagram}
    (hd : s.store.peek? id = some d) (hnew : d.withOptions .null = .ok new) (chosen : Settings)
    (reply : Option Reply) :
    (Service.step chosen reply s (.on id (.updateLayout .null))).2 = .ok (.diagram new) := by
  have hlocked : (s.lock id).store.peek? id = some d := by rw [store_lock, hd]
  simp only [Service.step, command, edit?, apply, load_of_peek? hlocked, hnew]

/-- After a run in which no edit of a diagram sets a size of a node that it moves by hand, the
diagram can be laid out again, and a step that asks for it succeeds. -/
theorem redrawn_of_run {s : Service} (hs : make? settings = .ok s)
    (steps : List (Settings × Option Reply × Step)) {id : String}
    (hsizes : ∀ chosen reply c, (chosen, reply, Step.on id c) ∈ steps → ¬ c.ResizesByHand chosen)
    {d : Diagram} (hd : (s.run steps).store.peek? id = some d) :
    ∃ new, d.withOptions .null = .ok new ∧ ∀ chosen reply,
      (Service.step chosen reply (s.run steps) (.on id (.updateLayout .null))).2
        = .ok (.diagram new) := by
  obtain ⟨new, hnew⟩ := (isDrawn_of_kept hs hsizes hd).exists_withOptions_null
  exact ⟨new, hnew, step_updateLayout_null hd hnew⟩

theorem redrawn_of_shortRun : ∃ s d new, make? Settings.standard = .ok s ∧
    (s.run shortRun).store.peek? "d" = some d ∧ isShort d = true ∧
    d.withOptions .null = .ok new ∧
    (Service.step .standard none (s.run shortRun) (.on "d" (.updateLayout .null))).2
      = .ok (.diagram new) := by
  obtain ⟨s, d, hs, hd, hshort⟩ := exists_peek?_shortRun
  have hsizes : ∀ chosen reply c, (chosen, reply, Step.on "d" c) ∈ shortRun →
      ¬ c.ResizesByHand chosen := by
    intro chosen reply c hmem
    simp only [shortRun, List.mem_cons, Prod.mk.injEq, Step.on.injEq, reduceCtorEq, and_false,
      List.not_mem_nil, or_false, false_or] at hmem
    rcases hmem with ⟨-, -, h, -⟩ | ⟨-, -, -, rfl⟩ | ⟨-, -, -, rfl⟩
    · exact absurd h (by decide)
    · exact not_false
    · rintro ⟨-, p, ⟨⟩, h | h⟩ <;> cases h
  obtain ⟨new, hnew, hstep⟩ := redrawn_of_run hs shortRun hsizes hd
  exact ⟨s, d, new, hs, hd, hshort, hnew, hstep .standard none⟩

/-- A variable is drawn, and moved by hand with a width that is not a number. -/
def unsizedRun : List (Settings × Option Reply × Step) :=
  [(.standard, none,
      .create "d" (.record [("variable", .record [("a", .record [])])]) (.record [])),
    (.standard, none,
      .on "d" (.updateNode (.text "var.a") (.record [("x", .int 1), ("width", .float .nan)])))]

/-- A kept diagram whose node was given no number for its width has no layout. -/
theorem exists_kept_not_redrawn :
    ¬ ∀ (settings : Settings) (s : Service), make? settings = .ok s →
      ∀ (steps : List (Settings × Option Reply × Step)) (id : String) (d : Diagram),
        (s.run steps).store.peek? id = some d →
        ∀ cause, d.withOptions .null ≠ .error (.unlaid cause) := by
  intro h
  have hundrawn : ((run ⟨⟨128, [], by decide⟩, []⟩ unsizedRun).store.peek? "d").any
      (fun d => !(d.drawing d.options).isOk) = true := by
    decide +kernel
  obtain ⟨d, hd, hundrawn⟩ := (Option.any_eq_true _ _).1 hundrawn
  rw [Bool.not_eq_true'] at hundrawn
  obtain ⟨cause, hcause⟩ := exists_eq_error_of_isOk hundrawn
  have hunlaid : d.withOptions .null = .error (.unlaid cause) := by
    show d.laidOut d.options = _
    rw [Diagram.laidOut, hcause]
  exact h .standard ⟨⟨128, [], by decide⟩, []⟩ rfl unsizedRun "d" d hd cause hunlaid

end Service

end BlockDiagram
