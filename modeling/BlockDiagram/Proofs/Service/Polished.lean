import BlockDiagram.Proofs.Diagram.Relabelled

/-!
# Polishing a kept diagram

Whatever an assistant replies, polishing has an outcome. It is the diagram as it was, or the diagram
with labels, icons and verbs taken from the reply, each from the last suggestion that has it. Taking
the same answer over again changes nothing more, and neither files nor layouts change at all.

* `Service.step_enhance`: a step that asks the assistant answers with the outcome.
* `Diagram.isPolished_iff`: when a reply is of use.
* `Service.relabelled_of_kept`: what polishing does to a kept diagram.
-/

namespace BlockDiagram

namespace Diagram

/-- What an answer that is not empty makes of a diagram. -/
theorem diagram_polished (d : Diagram) {content : Value} {answer : Table Value}
    (hanswer : Json.embedded? content = some answer) (hne : answer ≠ []) :
    (d.polished (.answer content)).diagram = d.relabelled answer ∧
      (d.polished (.answer content)).isPolished = true := by
  obtain ⟨first, rest, rfl⟩ := List.exists_cons_of_ne_nil hne
  simp only [polished, hanswer, and_self]

/-- A reply brings nothing, or it holds an answer. -/
theorem unpolished_or_answer (d : Diagram) (reply : Reply) :
    d.polished reply = d.unpolished ∨ ∃ content answer, reply = .answer content ∧
      Json.embedded? content = some answer ∧ answer ≠ [] := by
  cases reply with
  | failure => exact .inl rfl
  | answer content =>
    rw [polished]
    cases hembedded : Json.embedded? content with
    | none => exact .inl rfl
    | some answer =>
      cases answer with
      | nil => exact .inl rfl
      | cons first rest => exact .inr ⟨content, _, rfl, hembedded, List.cons_ne_nil _ _⟩

/-- A diagram is polished if the reply holds an answer that is not empty. -/
theorem isPolished_iff (d : Diagram) (reply : Reply) :
    (d.polished reply).isPolished = true ↔ ∃ content answer, reply = .answer content ∧
      Json.embedded? content = some answer ∧ answer ≠ [] := by
  constructor
  · intro h
    rcases d.unpolished_or_answer reply with hsame | hanswer
    · rw [hsame] at h
      cases h
    · exact hanswer
  · rintro ⟨content, answer, rfl, hanswer, hne⟩
    exact (d.diagram_polished hanswer hne).2

theorem unpolished_of_not_isPolished {d : Diagram} {reply : Reply}
    (h : (d.polished reply).isPolished = false) : d.polished reply = d.unpolished := by
  rcases d.unpolished_or_answer reply with hsame | hanswer
  · exact hsame
  · rw [(d.isPolished_iff reply).2 hanswer] at h
    cases h

end Diagram

namespace Service

variable {settings : Settings}

/-- A step that asks the assistant about a kept diagram answers with the outcome. -/
theorem step_enhance {s : Service} {id : String} {d : Diagram} (hd : s.store.peek? id = some d)
    (chosen : Settings) (reply : Reply) :
    (Service.step chosen (some reply) s (.on id .enhance)).2
      = .ok (.polished (d.polished reply)) := by
  have hlocked : (s.lock id).store.peek? id = some d := by rw [store_lock, hd]
  simp only [Service.step, command, edit?, enhance, load_of_peek? hlocked]

/-- Whatever an assistant replies about a kept diagram, the step that asks it answers with an
outcome. The outcome is polished exactly if the reply holds an answer that is not empty. If it is
not, it is the diagram and nothing beside it. If it is, the diagram takes over what the answer
settles. To take an answer over twice is the same as once, and it changes neither the files nor the
layout. -/
theorem relabelled_of_kept {s : Service} (hs : make? settings = .ok s)
    (steps : List (Settings × Option Reply × Step)) {id : String} {d : Diagram}
    (hd : (s.run steps).store.peek? id = some d) (reply : Reply) :
    (∀ chosen, (Service.step chosen (some reply) (s.run steps) (.on id .enhance)).2
        = .ok (.polished (d.polished reply))) ∧
      ((d.polished reply).isPolished = true ↔ ∃ content answer, reply = .answer content ∧
        Json.embedded? content = some answer ∧ answer ≠ []) ∧
      ((d.polished reply).isPolished = false → d.polished reply = ⟨d, false, [], []⟩) ∧
      (∀ content answer, reply = .answer content → Json.embedded? content = some answer →
        answer ≠ [] → d.TakesOver answer (d.polished reply).diagram) ∧
      ∀ answer : Table Value, d.TakesOver answer (d.relabelled answer) ∧
        (d.relabelled answer).relabelled answer = d.relabelled answer ∧
        (∀ extension withHeader,
          (d.relabelled answer).files extension withHeader = d.files extension withHeader) ∧
        ∀ options, (d.relabelled answer).drawing options = d.drawing options := by
  have hwf := (sound_of_kept hs hd).1
  refine ⟨fun chosen => step_enhance hd chosen reply, d.isPolished_iff reply,
    Diagram.unpolished_of_not_isPolished, ?_,
    fun answer => ⟨hwf.takesOver_relabelled answer, d.relabelled_relabelled answer,
      d.files_relabelled answer, hwf.drawing_relabelled answer⟩⟩
  rintro content answer rfl hanswer hne
  rw [(d.diagram_polished hanswer hne).1]
  exact hwf.takesOver_relabelled answer

/-- An answer in a fence: a label for the first variable, then a blank one for it, and a verb for an
edge. -/
def fencedAnswer : Value :=
  .text ("```\x7b\"nodes\":[\x7b\"id\":\"var.region\",\"label\":\" Home \"\x7d,"
    ++ "\x7b\"id\":\"var.region\",\"label\":\" \"\x7d],"
    ++ "\"edges\":[\x7b\"id\":\"var.region:resource.net.main\",\"verb\":\"uses\"\x7d]\x7d```")

/-- Whether an answer has what the fenced one should have: a label for the first variable, nothing
for the second one, and a verb for the first edge. -/
def isFenced (answer : Table Value) : Bool :=
  let nodes := Diagram.suggestions answer "nodes"
  !answer.isEmpty
    && ((Diagram.lastSuggested? nodes "var.region" "label").bind Value.text?) == some "Home"
    && (Diagram.lastSuggested? nodes "var.zone" "label").isNone
    && (Diagram.lastSuggested? nodes "var.zone" "icon").isNone
    && ((Diagram.lastSuggested? (Diagram.suggestions answer "edges")
      "var.region:resource.net.main" "verb").bind Value.text?) == some "uses"

theorem relabelled_of_fencedAnswer : ∃ s d new, make? Settings.standard = .ok s ∧
    (s.run shortRun).store.peek? "d" = some d ∧
    (d.polished (.answer fencedAnswer)).diagram = new ∧
    (d.polished (.answer fencedAnswer)).isPolished = true ∧
    (∃ node, new.nodes.get? "var.region" = some node ∧ node.label = .text "Home") ∧
    new.nodes.get? "var.zone" = d.nodes.get? "var.zone" ∧
    ∃ edge ∈ new.edges, edge.id = .text "var.region:resource.net.main" ∧
      edge.verb = .text "uses" := by
  obtain ⟨s, d, hs, hd, hshort⟩ := exists_peek?_shortRun
  obtain ⟨answer, hanswer, hfenced⟩ := (Option.any_eq_true _ _).1
    (show (Json.embedded? fencedAnswer).any isFenced = true by decide +kernel)
  simp only [isFenced, Bool.and_eq_true, Bool.not_eq_true', beq_iff_eq, List.isEmpty_eq_false_iff,
    Option.isNone_iff_eq_none] at hfenced
  obtain ⟨⟨⟨⟨hne, hhome⟩, hzoneLabel⟩, hzoneIcon⟩, huses⟩ := hfenced
  simp only [isShort, Bool.and_eq_true, beq_iff_eq] at hshort
  have hwf := (sound_of_kept hs hd).1
  obtain ⟨-, hpolished, -, htaken, -⟩ := relabelled_of_kept hs shortRun hd (.answer fencedAnswer)
  have htakes := htaken fencedAnswer answer rfl hanswer hne
  have hnode : ∀ id ∈ d.nodes.keys, ∃ node, d.nodes.get? id = some node ∧ node.id = id := by
    intro id hid
    obtain ⟨node, hnode⟩ := Option.isSome_iff_exists.1 (Table.mem_keys_iff.1 hid)
    exact ⟨node, hnode, hwf.id_eq_key id node (Table.mem_of_get? hnode)⟩
  rw [hshort.1] at hnode
  obtain ⟨region, hregion, hregionId⟩ := hnode "var.region" (by decide)
  obtain ⟨zone, hzone, hzoneId⟩ := hnode "var.zone" (by decide)
  obtain ⟨edge, hedge, hedgeId⟩ : ∃ edge ∈ d.edges,
      edge.id.text? = some "var.region:resource.net.main" := by
    refine List.mem_map.1 ?_
    rw [hshort.2]
    exact List.mem_cons_self
  obtain ⟨label, icon, hnewRegion, hlabel, -⟩ := htakes.exists_node hregion
  obtain ⟨sameLabel, sameIcon, hnewZone, hsameLabel, hsameIcon⟩ := htakes.exists_node hzone
  obtain ⟨verb, hnewEdge, hverb⟩ := htakes.exists_edge hedge
  obtain ⟨home, hsuggested, hhome⟩ := Option.bind_eq_some_iff.1 hhome
  obtain ⟨uses, hsuggestedVerb, huses⟩ := Option.bind_eq_some_iff.1 huses
  rw [Diagram.settles_iff, hregionId, hsuggested] at hlabel
  rw [Diagram.settles_iff, hzoneId, hzoneLabel] at hsameLabel
  rw [Diagram.settles_iff, hzoneId, hzoneIcon] at hsameIcon
  rw [Diagram.settles_iff, Value.eq_text_of_text? hedgeId, hsuggestedVerb] at hverb
  refine ⟨s, d, _, hs, hd, rfl, hpolished.2 ⟨_, answer, rfl, hanswer, hne⟩,
    ⟨_, hnewRegion, hlabel.trans (Value.eq_text_of_text? hhome)⟩, ?_, _, hnewEdge,
    Value.eq_text_of_text? hedgeId, hverb.trans (Value.eq_text_of_text? huses)⟩
  rw [hnewZone, hzone, hsameLabel, hsameIcon]
  rfl

end Service

end BlockDiagram
