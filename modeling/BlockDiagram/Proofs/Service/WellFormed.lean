import BlockDiagram.Outcome
import BlockDiagram.Proofs.Configuration.WellFormed
import BlockDiagram.Proofs.Diagram.Validity
import BlockDiagram.Proofs.Service.Step

/-!
# Kept diagrams are well-formed

New diagrams are well-formed, and every change that a command stands for keeps them so. What is
kept along a run follows from the effects of single steps.

* `edit_induction`: what the edits that change the skeleton keep, every edit keeps.
* `wellFormed_of_change`: a change keeps a diagram well-formed.
* `wellFormed_of_effect`: so does whatever a step does to the kept diagrams.
* `wellFormed_of_run`: after every run every kept diagram is well-formed and checks without errors.
-/

namespace BlockDiagram.Service

open Outcome

variable {settings : Settings} {reply : Option Reply}

/-- What the skeleton of a diagram decides, and the edits that change the skeleton keep, every edit
keeps. -/
theorem edit_induction {P : Diagram → Prop}
    (hskeleton : ∀ {d d'}, P d → d'.skeleton = d.skeleton → P d')
    (hnode : ∀ {d d' payload}, P d → d.appendNode payload = .ok d' → P d')
    (hwithoutNode : ∀ {d} key, P d → P (d.removeNode key))
    (hedge : ∀ {d d' payload}, P d → d.appendEdge payload = .ok d' → P d')
    (hwithoutEdge : ∀ {d} edge, P d → P (d.removeEdge edge))
    {c : Command} {edit : Diagram → Except Error Diagram} {old new : Diagram}
    (hedit : edit? settings c = some edit) (hold : old.WellFormed) (hP : P old)
    (hnew : edit old = .ok new) : P new := by
  cases c with
  | updateLayout options =>
    cases hedit
    obtain ⟨chosen, -, hnew⟩ := bind_eq_ok.1 hnew
    exact hskeleton hP (Diagram.skeleton_laidOut hnew)
  | addNode payload =>
    cases hedit
    obtain ⟨changed, hchanged, hnew⟩ := bind_eq_ok.1 hnew
    exact hskeleton (hnode hP hchanged) (Diagram.skeleton_laidOut hnew)
  | updateNode node patch =>
    cases hedit
    exact hskeleton hP (Diagram.skeleton_withNodeChanged hnew)
  | deleteNode node =>
    cases hedit
    obtain ⟨⟨key, node⟩, -, hnew⟩ := bind_eq_ok.1 hnew
    exact hskeleton (hwithoutNode key hP) (Diagram.skeleton_laidOut hnew)
  | addEdge payload =>
    cases hedit
    obtain ⟨changed, hchanged, hnew⟩ := bind_eq_ok.1 hnew
    exact hskeleton (hedge hP hchanged) (Diagram.skeleton_laidOut hnew)
  | updateEdge ref patch =>
    cases hedit
    exact hskeleton hP (hold.skeleton_withEdgeChanged hnew)
  | deleteEdge ref =>
    cases hedit
    obtain ⟨edge, -, hnew⟩ := bind_eq_ok.1 hnew
    exact hskeleton (hwithoutEdge edge hP) (Diagram.skeleton_laidOut hnew)
  | get => cases hedit
  | delete => cases hedit
  | enhance => cases hedit
  | generateCode withHeader => cases hedit

theorem wellFormed_of_edit {c : Command} {edit : Diagram → Except Error Diagram}
    {old new : Diagram} (hedit : edit? settings c = some edit) (hold : old.WellFormed)
    (hnew : edit old = .ok new) : new.WellFormed :=
  edit_induction (fun hd h => hd.of_skeleton_eq h) (fun hd h => hd.appendNode h)
    (fun key hd => hd.removeNode key) (fun hd h => hd.appendEdge h)
    (fun edge hd => hd.removeEdge edge) hedit hold hold hnew

/-- The change of a question to the assistant is a relabelling. -/
theorem exists_relabelled_of_change {change : Diagram → Except Error Diagram}
    (h : change? settings reply .enhance = some change) :
    ∃ answer, change = fun d => .ok (d.relabelled answer) := by
  cases reply with
  | none => cases h
  | some reply =>
    cases reply with
    | failure => cases h
    | answer content =>
      cases hfound : Json.embedded? content with
      | none => simp [change?, hfound] at h
      | some fields =>
        cases fields with
        | nil => simp [change?, hfound] at h
        | cons first rest =>
          simp only [change?, hfound, Option.some.injEq] at h
          exact ⟨first :: rest, h.symm⟩

theorem wellFormed_of_change {c : Command} {change : Diagram → Except Error Diagram}
    {old new : Diagram} (hchange : change? settings reply c = some change)
    (hold : old.WellFormed) (hnew : change old = .ok new) : new.WellFormed := by
  by_cases henhance : c = .enhance
  · subst henhance
    obtain ⟨answer, rfl⟩ := exists_relabelled_of_change hchange
    cases hnew
    exact hold.of_skeleton_eq (Diagram.skeleton_relabelled old answer)
  · have hedit : edit? settings c = some change := by
      cases c <;> first | exact hchange | exact absurd rfl henhance
    exact wellFormed_of_edit hedit hold hnew

theorem wellFormed_of_newDiagram {configuration layout : Value} {d : Diagram}
    (h : newDiagram settings configuration layout = .ok d) : d.WellFormed := by
  obtain ⟨standard, -, h⟩ := bind_eq_ok.1 h
  obtain ⟨options, -, h⟩ := bind_eq_ok.1 h
  exact Configuration.wellFormed_drawn h

/-- Every diagram in a store is well-formed. -/
def AllWellFormed (store : Store Diagram) : Prop :=
  store.ids.Nodup ∧ ∀ id d, store.peek? id = some d → d.WellFormed

theorem wellFormed_of_effect {store after : Store Diagram} {step : Step}
    {answer : Except Error Answer} (hstore : AllWellFormed store)
    (h : Effect settings reply store step after answer) : AllWellFormed after := by
  obtain ⟨hids, hall⟩ := hstore
  refine ⟨h.nodup_ids hids, fun id d hd => ?_⟩
  cases h with
  | made hnew =>
    rcases Store.peek?_of_peek?_set hids hd with ⟨-, rfl⟩ | ⟨-, hd⟩
    · exact wellFormed_of_newDiagram hnew
    · exact hall id d hd
  | changed hchange hold hnew =>
    rcases Store.peek?_of_peek?_set (Store.nodup_ids_get hids _) hd with ⟨-, rfl⟩ | ⟨-, hd⟩
    · exact wellFormed_of_change hchange (hall _ _ hold) hnew
    · rw [Store.peek?_get] at hd
      exact hall id d hd
  | removed =>
    rw [Store.peek?_delete] at hd
    split at hd
    · cases hd
    · exact hall id d hd
  | failed hafter =>
    rcases hafter with rfl | ⟨other, rfl⟩
    · exact hall id d hd
    · rw [Store.peek?_get] at hd
      exact hall id d hd
  | looked =>
    rw [Store.peek?_get] at hd
    exact hall id d hd

/-- After every run of steps, failing ones included, every kept diagram is well-formed: nodes and
edges are stored under their own ids, ids are made of kind, type and name, and edges join nodes. A
check finds no error in it. -/
theorem wellFormed_of_run {settings : Settings} {s : Service} (hs : make? settings = .ok s)
    (steps : List (Settings × Option Reply × Step)) {id : String} {d : Diagram}
    (hd : (s.run steps).store.peek? id = some d) :
    d.WellFormed ∧ (∀ e ∈ d.edges, d.edge? e.id = some e) ∧ d.issuesOf .error = [] := by
  have hstart : AllWellFormed s.store := by
    have hentries := entries_of_make? hs
    constructor
    · rw [Store.ids, hentries]
      exact List.nodup_nil
    · intro id d hd
      rw [Store.peek?, hentries] at hd
      cases hd
  have hrun := run_induction (P := AllWellFormed)
    (fun _ _ _ _ _ _ hstore heffect => wellFormed_of_effect hstore heffect) hstart steps
  have hwf := hrun.2 id d hd
  exact ⟨hwf, fun e he => hwf.edge?_id he, hwf.issuesOf_error⟩

theorem wellFormed_of_shortRun : ∃ s d, make? Settings.standard = .ok s ∧
    (s.run shortRun).store.peek? "d" = some d ∧ isShort d = true ∧
    d.WellFormed ∧ (∀ e ∈ d.edges, d.edge? e.id = some e) ∧ d.issuesOf .error = [] := by
  obtain ⟨s, d, hs, hd, hshort⟩ := exists_peek?_shortRun
  exact ⟨s, d, hs, hd, hshort, wellFormed_of_run hs shortRun hd⟩

end BlockDiagram.Service
