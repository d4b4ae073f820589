import BlockDiagram.Proofs.Diagram.Complete
import BlockDiagram.Proofs.Service.Replay
import BlockDiagram.Proofs.Service.WellFormed

/-!
# What holds of every kept diagram

A property of diagrams that new ones have and changes keep is one of every diagram that a service
keeps. Only the steps on the diagram's own id count.

* `kept_induction`: the principle, along a run.
* `isComplete_of_change`: a change keeps a diagram complete.
* `sound_of_kept`: kept diagrams are well-formed and complete.
-/

namespace BlockDiagram.Service

open Outcome

variable {settings : Settings} {reply : Option Reply}

/-! ## Induction -/

/-- What new diagrams under an id have and changes of the diagram under it keep holds of the diagram
that is kept under it after a run. -/
theorem kept_induction {P : Diagram → Prop} {id : String} {s : Service}
    (hs : make? settings = .ok s) {steps : List (Settings × Option Reply × Step)}
    (hmade : ∀ chosen reply configuration layout d,
      (chosen, reply, Step.create id configuration layout) ∈ steps →
      newDiagram chosen configuration layout = .ok d → P d)
    (hchanged : ∀ chosen reply c change old new, (chosen, reply, Step.on id c) ∈ steps →
      change? chosen reply c = some change → P old → change old = .ok new → P new)
    {d : Diagram} (hd : (s.run steps).store.peek? id = some d) : P d := by
  have hids : s.store.ids.Nodup := by
    rw [Store.ids, entries_of_make? hs]
    exact List.nodup_nil
  have hstart : ∀ d, s.store.peek? id = some d → P d := by
    intro d hd
    rw [Store.peek?, entries_of_make? hs] at hd
    cases hd
  clear hs
  -- Only the first service is new. What later ones have in common with it is that their ids are
  -- distinct and that what they keep under the id has the property.
  induction steps generalizing s with
  | nil => exact hstart d hd
  | cons turn rest ih =>
    obtain ⟨chosen, reply, step⟩ := turn
    have heffect := effect_step chosen reply s step
    refine ih ?_ ?_ hd (heffect.nodup_ids hids) fun middle hmiddle => ?_
    · exact fun _ _ _ _ _ hmem => hmade _ _ _ _ _ (List.mem_cons_of_mem _ hmem)
    · exact fun _ _ _ _ _ _ hmem => hchanged _ _ _ _ _ _ (List.mem_cons_of_mem _ hmem)
    rcases hanswer : (Service.step chosen reply s step).2 with e | answer
    · rw [hanswer] at heffect
      rw [peek?_of_failed heffect] at hmiddle
      exact hstart middle hmiddle
    · rw [hanswer] at heffect
      rcases peek?_of_effect hids heffect hmiddle with
        ⟨configuration, layout, rfl, hnew⟩ | ⟨old, hold, -, hreplay⟩
      · exact hmade _ _ _ _ _ List.mem_cons_self (newDiagram_eq_ok_iff.2 hnew)
      · have hP := hstart old hold
        cases step with
        | create other configuration layout =>
          cases hreplay
          exact hP
        | on other c =>
          by_cases hother : other = id
          · subst hother
            rw [replay_on] at hreplay
            rcases eq_or_change_of_mutated hreplay with rfl | ⟨change, hchange, hnew⟩
            · exact hP
            · exact hchanged _ _ _ _ _ _ List.mem_cons_self hchange hP hnew
          · rw [replay_on_of_ne _ _ hother] at hreplay
            cases hreplay
            exact hP

/-! ## Completeness -/

theorem isComplete_of_newDiagram {configuration layout : Value} {d : Diagram}
    (h : newDiagram settings configuration layout = .ok d) : d.IsComplete := by
  obtain ⟨standard, -, h⟩ := bind_eq_ok.1 h
  obtain ⟨options, -, h⟩ := bind_eq_ok.1 h
  exact Configuration.isComplete_drawn h

theorem isComplete_of_edit {c : Command} {edit : Diagram → Except Error Diagram}
    {old new : Diagram} (hedit : edit? settings c = some edit) (hold : old.WellFormed)
    (hcomplete : old.IsComplete) (hnew : edit old = .ok new) : new.IsComplete := by
  cases c with
  | updateLayout options =>
    cases hedit
    obtain ⟨chosen, -, hnew⟩ := bind_eq_ok.1 hnew
    exact hcomplete.laidOut hnew
  | addNode payload =>
    cases hedit
    obtain ⟨changed, hchanged, hnew⟩ := bind_eq_ok.1 hnew
    exact (hcomplete.appendNode hchanged).laidOut hnew
  | updateNode node patch =>
    cases hedit
    exact hcomplete.withNodeChanged hnew
  | deleteNode node =>
    cases hedit
    obtain ⟨⟨key, node⟩, -, hnew⟩ := bind_eq_ok.1 hnew
    exact (hcomplete.removeNode key).laidOut hnew
  | addEdge payload =>
    cases hedit
    obtain ⟨changed, hchanged, hnew⟩ := bind_eq_ok.1 hnew
    exact (hcomplete.appendEdge hchanged).laidOut hnew
  | updateEdge ref patch =>
    cases hedit
    exact hcomplete.withEdgeChanged hold.edgeId_text hnew
  | deleteEdge ref =>
    cases hedit
    obtain ⟨edge, -, hnew⟩ := bind_eq_ok.1 hnew
    exact (hcomplete.removeEdge edge).laidOut hnew
  | get => cases hedit
  | delete => cases hedit
  | enhance => cases hedit
  | generateCode withHeader => cases hedit

/-- A change is an edit or a relabelling. -/
theorem edit_or_relabelled {c : Command} {change : Diagram → Except Error Diagram}
    (h : change? settings reply c = some change) :
    edit? settings c = some change ∨ ∃ answer, change = fun d => .ok (d.relabelled answer) := by
  by_cases henhance : c = .enhance
  · subst henhance
    exact .inr (exists_relabelled_of_change h)
  · left
    cases c <;> first | exact h | exact absurd rfl henhance

theorem isComplete_of_change {c : Command} {change : Diagram → Except Error Diagram}
    {old new : Diagram} (hchange : change? settings reply c = some change)
    (hold : old.WellFormed) (hcomplete : old.IsComplete) (hnew : change old = .ok new) :
    new.IsComplete := by
  rcases edit_or_relabelled hchange with hedit | ⟨answer, rfl⟩
  · exact isComplete_of_edit hedit hold hcomplete hnew
  · cases hnew
    exact hcomplete.relabelled answer

/-- A kept diagram is well-formed and complete. -/
theorem sound_of_kept {s : Service} (hs : make? settings = .ok s)
    {steps : List (Settings × Option Reply × Step)} {id : String} {d : Diagram}
    (hd : (s.run steps).store.peek? id = some d) : d.WellFormed ∧ d.IsComplete := by
  refine kept_induction (P := fun d => d.WellFormed ∧ d.IsComplete) hs ?_ ?_ hd
  · intro chosen reply configuration layout d _ hnew
    exact ⟨wellFormed_of_newDiagram hnew, isComplete_of_newDiagram hnew⟩
  · rintro chosen reply c change old new - hchange ⟨hwf, hcomplete⟩ hnew
    exact ⟨wellFormed_of_change hchange hwf hnew, isComplete_of_change hchange hwf hcomplete hnew⟩

end BlockDiagram.Service
