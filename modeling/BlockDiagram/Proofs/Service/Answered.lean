import BlockDiagram.Proofs.Service.Kept
import BlockDiagram.Proofs.Snapshot.Answered

/-!
# Edits of kept diagrams are answered

An edit of a kept diagram succeeds or is refused, whatever it is given, and so does the reading of a
snapshot. The exceptions are known: a patch of a node that voids the kind, an id or a reference of
the wrong type, and an edge of a snapshot under an id that is no key.

* `Command.Misfires`: the edits that are not answered.
* `Service.answered_of_kept`: all others are.
* `Service.exists_edit_not_answered`: an edit and a snapshot that are not.
-/

namespace BlockDiagram

/-- The edits of a diagram that look something up where it cannot be: a node under an id, or an edge
under a reference, of the wrong type; or the kind in a patch of a node under a key that is absent.
-/
def Command.Misfires (d : Diagram) : Command → Prop
  | .updateNode id patch => id.isKey = false ∨ ∃ key node p, d.nodeAt id = .ok (key, node) ∧
      Payload.ofValue Payload.nodeSpellings patch = .ok p ∧ p.contradicts "id" id = false ∧
      p.voidsKind = true
  | .deleteNode id => id.isKey = false
  | .updateEdge ref _ => ∀ s, ref ≠ .text s
  | .deleteEdge ref => ∀ s, ref ≠ .text s
  | _ => False

namespace Service

variable {settings : Settings}

/-- An edit of a diagram whose edges have texts for ids is answered unless it misfires. -/
theorem isAnswered_edit_iff {c : Command} {edit : Diagram → Except Error Diagram} {d : Diagram}
    (hedit : edit? settings c = some edit) (hids : ∀ e ∈ d.edges, ∃ s, e.id = .text s) :
    IsAnswered (edit d) ↔ ¬ c.Misfires d := by
  cases c with
  | updateLayout options =>
    cases hedit
    exact iff_of_true (d.isAnswered_withOptions options) not_false
  | addNode payload =>
    cases hedit
    exact iff_of_true (d.isAnswered_withNode payload) not_false
  | updateNode id patch =>
    cases hedit
    rw [Diagram.isAnswered_withNodeChanged_iff, Command.Misfires]
    simp only [not_or, not_exists, not_and, Bool.not_eq_false, Bool.not_eq_true]
  | deleteNode id =>
    cases hedit
    rw [Diagram.isAnswered_withoutNode_iff, Command.Misfires, Bool.not_eq_false]
  | addEdge payload =>
    cases hedit
    exact iff_of_true (d.isAnswered_withEdge payload) not_false
  | updateEdge ref patch =>
    cases hedit
    rw [Diagram.isAnswered_withEdgeChanged_iff, d.isAnswered_resolve_iff hids, Command.Misfires,
      not_forall_not]
  | deleteEdge ref =>
    cases hedit
    rw [Diagram.isAnswered_withoutEdge_iff, d.isAnswered_resolve_iff hids, Command.Misfires,
      not_forall_not]
  | get => cases hedit
  | delete => cases hedit
  | enhance => cases hedit
  | generateCode withHeader => cases hedit

/-- An edit of a kept diagram is answered unless it misfires, and the reading of a snapshot unless
it misreads an edge. -/
theorem answered_of_kept {s : Service} (hs : make? settings = .ok s)
    (steps : List (Settings × Option Reply × Step)) {id : String} {d : Diagram}
    (hd : (s.run steps).store.peek? id = some d) :
    (∀ chosen c edit, edit? chosen c = some edit → (IsAnswered (edit d) ↔ ¬ c.Misfires d)) ∧
      ∀ value, IsAnswered (Snapshot.diagram value) ↔ ¬ Snapshot.Misreads value :=
  ⟨fun _ _ _ hedit => isAnswered_edit_iff hedit (sound_of_kept hs hd).1.edgeId_text,
    Snapshot.isAnswered_diagram_iff⟩

/-- A patch that repeats the kind of a variable, with a width that is no number, and a snapshot
whose edge has a list for an id, but no ends. -/
theorem answered_of_shortRun : ∃ s d, make? Settings.standard = .ok s ∧
    (s.run shortRun).store.peek? "d" = some d ∧
    IsAnswered (d.withNodeChanged (.text "var.region")
      (.record [("kind", .text "variable"), ("width", .text "wide")]) true) ∧
    IsAnswered (Snapshot.diagram
      (.record [("edges", .list [.record [("id", .list [.int 1])]])])) := by
  obtain ⟨s, d, hs, hd, -⟩ := exists_peek?_shortRun
  obtain ⟨hedits, hsnapshots⟩ := answered_of_kept hs shortRun hd
  refine ⟨s, d, hs, hd, (hedits .standard (.updateNode _ _) _ rfl).2 ?_, (hsnapshots _).2 ?_⟩
  · rintro (hkey | ⟨key, node, p, -, hp, -, hvoid⟩)
    · cases hkey
    · cases hp
      exact absurd hvoid (by decide)
  · rintro ⟨fields, before, edge, after, d, -, hfield, -, fieldsOfEdge, source, -, rfl, hsource, -⟩
    have hedge : .record fieldsOfEdge ∈ before ++ .record fieldsOfEdge :: after :=
      List.mem_append_right _ List.mem_cons_self
    rw [← Value.list.inj hfield] at hedge
    cases List.mem_singleton.1 hedge
    cases hsource

/-- A patch of a node whose kind is null is looked up under an absent key, and an edge of a snapshot
under a list. -/
theorem exists_edit_not_answered :
    (∃ s d, make? Settings.standard = .ok s ∧ (s.run shortRun).store.peek? "d" = some d ∧
      ¬ IsAnswered (d.withNodeChanged (.text "var.region") (.record [("kind", .null)]) true)) ∧
    ¬ IsAnswered (Snapshot.diagram (.record [("edges", .list [.record [("id", .list [.int 1]),
      ("sourceId", .text "var.a"), ("targetId", .text "var.b")]])])) := by
  have hfound : ((run ⟨⟨128, [], by decide⟩, []⟩ shortRun).store.peek? "d").any
      (fun d => (d.nodeAt (.text "var.region")).isOk) = true := by
    decide +kernel
  obtain ⟨d, hd, hfound⟩ := (Option.any_eq_true _ _).1 hfound
  obtain ⟨⟨key, node⟩, hnode⟩ := Outcome.exists_eq_ok_of_isOk hfound
  refine ⟨⟨⟨⟨128, [], by decide⟩, []⟩, d, rfl, hd, fun hanswered => ?_⟩, not_isAnswered_error rfl⟩
  rw [Diagram.isAnswered_withNodeChanged_iff] at hanswered
  exact absurd (hanswered.2 key node _ hnode rfl rfl) (by decide)

end Service

end BlockDiagram
