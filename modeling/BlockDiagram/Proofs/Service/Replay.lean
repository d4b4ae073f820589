import BlockDiagram.Outcome
import BlockDiagram.Proofs.Service.Step

/-!
# A kept diagram is the replay of its steps

A service keeps many diagrams at once, drops some of them for want of room, and stumbles over steps
that fail. Yet what it keeps under an id is what plain functions make of the arguments: the diagram
that was built, and then the mutations of those later steps on this id that succeeded. Which
function belongs to which command is stated here on its own, apart from how the service dispatches
it.

* `IsBuilt`, `mutated`, `replay`: the plain functions.
* `mutated_eq`: the changes that a service makes are the mutations.
* `peek?_of_effect`: a diagram kept after a step was made by it, or comes from the one kept before.
* `peek?_of_failed`: a step that fails leaves every kept diagram as it was.
* `replay_of_run`: the same along a run.
-/

namespace BlockDiagram.Service

open Outcome

/-! ## Replaying -/

/-- Whether a diagram is that of a configuration, drawn with the options of the settings and others
laid over them. -/
def IsBuilt (settings : Settings) (configuration layout : Value) (d : Diagram) : Prop :=
  ∃ standard options, settings.options = .ok standard ∧
    Payload.options layout standard = .ok options ∧
    Configuration.drawn configuration options = .ok d

/-- The diagram with the labels, icons and verbs of the assistant's answer, if there is an answer
with a record that is not empty. -/
def enhanced (reply : Option Reply) (d : Diagram) : Diagram :=
  match reply with
  | some (.answer content) =>
    match Json.embedded? content with
    | some (first :: rest) => d.relabelled (first :: rest)
    | _ => d
  | _ => d

/-- What a command makes of a diagram, with the settings in force and what the assistant would
answer. -/
def mutated (settings : Settings) (reply : Option Reply) (d : Diagram) :
    Command → Except Error Diagram
  | .get => .ok d
  | .delete => .ok d
  | .updateLayout options => d.withOptions options
  | .addNode payload => d.withNode payload
  | .updateNode node patch => d.withNodeChanged node patch settings.relayout
  | .deleteNode node => d.withoutNode node
  | .addEdge payload => d.withEdge payload
  | .updateEdge ref patch => d.withEdgeChanged ref patch
  | .deleteEdge ref => d.withoutEdge ref
  | .enhance => .ok (enhanced reply d)
  | .generateCode _ => .ok d

/-- The commands on an id, in their order. -/
def commandsOn (id : String) (steps : List (Settings × Option Reply × Step)) :
    List (Settings × Option Reply × Command) :=
  steps.filterMap fun
    | (_, _, .create _ _ _) => none
    | (settings, reply, .on other c) => if other = id then some (settings, reply, c) else none

/-- What the commands on an id among some steps make of a diagram, one after another. -/
def replay (id : String) (steps : List (Settings × Option Reply × Step)) (d : Diagram) :
    Except Error Diagram :=
  (commandsOn id steps).foldlM (fun d (settings, reply, c) => mutated settings reply d c) d

/-- Whether a step makes the diagram under an id or takes it away. -/
def startsOver (id : String) : Step → Bool
  | .create other _ _ => other == id
  | .on other .delete => other == id
  | .on _ _ => false

/-- The steps of a run that succeed. -/
def succeeded (s : Service) :
    List (Settings × Option Reply × Step) → List (Settings × Option Reply × Step)
  | [] => []
  | (settings, reply, step) :: rest =>
    match Service.step settings reply s step with
    | (next, .ok _) => (settings, reply, step) :: succeeded next rest
    | (next, .error _) => succeeded next rest

theorem replay_append (id : String) (first second : List (Settings × Option Reply × Step))
    (d : Diagram) :
    replay id (first ++ second) d = replay id first d >>= replay id second := by
  simp only [replay, commandsOn, List.filterMap_append, List.foldlM_append]
  rfl

theorem replay_create (id : String) (settings : Settings) (reply : Option Reply) (other : String)
    (configuration layout : Value) (d : Diagram) :
    replay id [(settings, reply, .create other configuration layout)] d = .ok d := rfl

theorem replay_on (settings : Settings) (reply : Option Reply) (id : String) (c : Command)
    (d : Diagram) : replay id [(settings, reply, .on id c)] d = mutated settings reply d c := by
  simp only [replay, commandsOn, List.filterMap_cons, if_true, List.filterMap_nil, List.foldlM_cons,
    List.foldlM_nil]
  exact bind_pure (mutated settings reply d c)

theorem replay_on_of_ne (settings : Settings) (reply : Option Reply) {id other : String}
    (h : other ≠ id) (c : Command) (d : Diagram) :
    replay id [(settings, reply, .on other c)] d = .ok d := by
  simp only [replay, commandsOn, List.filterMap_cons, if_neg h]
  rfl

/-! ## Mutations -/

variable {settings : Settings} {reply : Option Reply} {c : Command}

theorem newDiagram_eq_ok_iff {configuration layout : Value} {d : Diagram} :
    newDiagram settings configuration layout = .ok d ↔ IsBuilt settings configuration layout d := by
  constructor
  · intro h
    obtain ⟨standard, hstandard, h⟩ := bind_eq_ok.1 h
    obtain ⟨options, hoptions, h⟩ := bind_eq_ok.1 h
    exact ⟨standard, options, hstandard, hoptions, h⟩
  · rintro ⟨standard, options, hstandard, hoptions, h⟩
    exact bind_eq_ok.2 ⟨standard, hstandard, bind_eq_ok.2 ⟨options, hoptions, h⟩⟩

theorem mutated_enhance (d : Diagram) : mutated settings reply d .enhance
    = match change? settings reply .enhance with
      | some change => change d
      | none => .ok d := by
  rcases reply with _ | content | _
  · rfl
  · cases hfound : Json.embedded? content with
    | none => simp [mutated, enhanced, change?, hfound]
    | some answer => cases answer <;> simp [mutated, enhanced, change?, hfound]
  · rfl

/-- The mutation of a command is the change that a service makes for it, if there is one. -/
theorem mutated_eq (d : Diagram) : mutated settings reply d c
    = match change? settings reply c with
      | some change => change d
      | none => .ok d := by
  cases c with
  | enhance => exact mutated_enhance d
  | _ => rfl

theorem mutated_of_change? {change : Diagram → Except Error Diagram}
    (h : change? settings reply c = some change) (d : Diagram) :
    mutated settings reply d c = change d := by
  rw [mutated_eq, h]

theorem mutated_of_change?_eq_none (h : change? settings reply c = none) (d : Diagram) :
    mutated settings reply d c = .ok d := by
  rw [mutated_eq, h]

/-- A mutation is the change that a service makes, or nothing happens. -/
theorem eq_or_change_of_mutated {old new : Diagram} (h : mutated settings reply old c = .ok new) :
    new = old ∨ ∃ change, change? settings reply c = some change ∧ change old = .ok new := by
  cases hchange : change? settings reply c with
  | none =>
    rw [mutated_of_change?_eq_none hchange] at h
    cases h
    exact .inl rfl
  | some change =>
    rw [mutated_of_change? hchange] at h
    exact .inr ⟨change, rfl, h⟩

theorem run_append (s : Service) (first second : List (Settings × Option Reply × Step)) :
    s.run (first ++ second) = (s.run first).run second := by
  induction first generalizing s with
  | nil => rfl
  | cons turn rest ih => exact ih _

/-! ## One step -/

variable {store after : Store Diagram} {step : Step}

theorem peek?_of_failed {e : Error} (h : Effect settings reply store step after (.error e))
    (id : String) : after.peek? id = store.peek? id := by
  cases h with
  | failed hafter =>
    rcases hafter with rfl | ⟨other, rfl⟩
    · rfl
    · exact Store.peek?_get store other id

/-- A diagram kept after a successful step was built by it, or is what its mutation makes of the one
kept before. -/
theorem peek?_of_effect {answer : Answer} {id : String} {d : Diagram} (hids : store.ids.Nodup)
    (h : Effect settings reply store step after (.ok answer)) (hd : after.peek? id = some d) :
    (∃ configuration layout, step = .create id configuration layout ∧
        IsBuilt settings configuration layout d) ∨
      ∃ old, store.peek? id = some old ∧ startsOver id step = false ∧
        replay id [(settings, reply, step)] old = .ok d := by
  cases h with
  | @made other configuration layout new _ hnew =>
    rcases Store.peek?_of_peek?_set hids hd with ⟨rfl, rfl⟩ | ⟨hne, hd⟩
    · exact .inl ⟨configuration, layout, rfl, newDiagram_eq_ok_iff.1 hnew⟩
    · refine .inr ⟨d, hd, ?_, replay_create ..⟩
      simpa [startsOver] using Ne.symm hne
  | @changed other c change old new _ hchange hold hnew =>
    right
    rcases Store.peek?_of_peek?_set (Store.nodup_ids_get hids _) hd with ⟨rfl, rfl⟩ | ⟨hne, hd⟩
    · refine ⟨old, hold, ?_, ?_⟩
      · cases c with
        | delete => cases hchange
        | _ => rfl
      · rw [replay_on, mutated_of_change? hchange, hnew]
    · rw [Store.peek?_get] at hd
      have hother : ¬ other = id := fun e => hne e.symm
      refine ⟨d, hd, ?_, replay_on_of_ne _ _ hother c d⟩
      cases c <;> simp [startsOver, hother]
  | @removed other _ =>
    right
    rw [Store.peek?_delete] at hd
    split at hd
    · cases hd
    · next hne =>
      have hother : ¬ other = id := fun e => hne e.symm
      exact ⟨d, hd, by simpa [startsOver] using hother, replay_on_of_ne _ _ hother .delete d⟩
  | @looked other c _ hchange hdelete =>
    right
    rw [Store.peek?_get] at hd
    refine ⟨d, hd, ?_, ?_⟩
    · cases c <;> first | rfl | exact absurd rfl hdelete
    · by_cases hother : other = id
      · subst hother
        rw [replay_on, mutated_of_change?_eq_none hchange]
      · exact replay_on_of_ne _ _ hother c d

/-! ## Runs -/

theorem succeeded_cons_of_ok {s next : Service} {answer : Answer}
    (rest : List (Settings × Option Reply × Step))
    (h : Service.step settings reply s step = (next, .ok answer)) :
    succeeded s ((settings, reply, step) :: rest)
      = (settings, reply, step) :: succeeded next rest := by
  rw [succeeded, h]

theorem succeeded_cons_of_error {s next : Service} {e : Error}
    (rest : List (Settings × Option Reply × Step))
    (h : Service.step settings reply s step = (next, .error e)) :
    succeeded s ((settings, reply, step) :: rest) = succeeded next rest := by
  rw [succeeded, h]

/-- A diagram under an id is what the successful steps make of an old one; none of them makes it
anew or takes it away. -/
structure ComesFrom (s : Service) (steps : List (Settings × Option Reply × Step)) (id : String)
    (old d : Diagram) : Prop where
  kept : ∀ turn ∈ succeeded s steps, startsOver id turn.2.2 = false
  replayed : replay id (succeeded s steps) old = .ok d

/-- A diagram kept after a run comes from the one kept before, or from a new one on the way. -/
theorem peek?_run {s : Service} (hids : s.store.ids.Nodup)
    (steps : List (Settings × Option Reply × Step)) {id : String} {d : Diagram}
    (hd : (s.run steps).store.peek? id = some d) :
    (∃ old, s.store.peek? id = some old ∧ ComesFrom s steps id old d) ∨
      ∃ before settings reply configuration layout later new,
        steps = before ++ (settings, reply, .create id configuration layout) :: later ∧
        IsBuilt settings configuration layout new ∧
        ComesFrom (s.run (before ++ [(settings, reply, .create id configuration layout)])) later id
          new d := by
  induction steps generalizing s with
  | nil => exact .inl ⟨d, hd, by simp [succeeded], rfl⟩
  | cons turn rest ih =>
    obtain ⟨settings, reply, step⟩ := turn
    have heffect := effect_step settings reply s step
    rcases ih (heffect.nodup_ids hids) hd with ⟨middle, hmiddle, hcomes⟩ |
      ⟨before, made, madeReply, configuration, layout, later, new, hrest, hnew, hcomes⟩
    · rcases hstep : Service.step settings reply s step with ⟨next, answer⟩
      rw [hstep] at heffect hmiddle hcomes
      cases answer with
      | error e =>
        rw [peek?_of_failed heffect] at hmiddle
        refine .inl ⟨middle, hmiddle, ?_, ?_⟩
        · rw [succeeded_cons_of_error rest hstep]
          exact hcomes.kept
        · rw [succeeded_cons_of_error rest hstep]
          exact hcomes.replayed
      | ok answer =>
        rcases peek?_of_effect hids heffect hmiddle with
          ⟨configuration, layout, rfl, hnew⟩ | ⟨old, hold, hkept, hreplay⟩
        · refine .inr ⟨[], settings, reply, configuration, layout, rest, middle, rfl, hnew, ?_⟩
          simpa [run, hstep] using hcomes
        · refine .inl ⟨old, hold, ?_, ?_⟩
          · rw [succeeded_cons_of_ok rest hstep, List.forall_mem_cons]
            exact ⟨hkept, hcomes.kept⟩
          · rw [succeeded_cons_of_ok rest hstep, ← List.singleton_append, replay_append, hreplay]
            exact hcomes.replayed
    · exact .inr ⟨(settings, reply, step) :: before, made, madeReply, configuration, layout, later,
        new, congrArg (List.cons (settings, reply, step)) hrest, hnew, hcomes⟩

/-- A diagram that a service keeps under an id after a run is the one that the last successful
`create` of this id built, with the mutations of exactly those later steps on this id that
succeeded, each with its own settings. A step that fails on the way leaves every kept diagram as it
was. -/
theorem replay_of_run {settings : Settings} {s : Service} (hs : make? settings = .ok s)
    (steps : List (Settings × Option Reply × Step)) :
    (∀ id d, (s.run steps).store.peek? id = some d →
      ∃ before chosen reply configuration layout later new,
        steps = before ++ (chosen, reply, .create id configuration layout) :: later ∧
        IsBuilt chosen configuration layout new ∧
        ComesFrom (s.run (before ++ [(chosen, reply, .create id configuration layout)])) later id
          new d) ∧
    ∀ before chosen reply step later e, steps = before ++ (chosen, reply, step) :: later →
      (Service.step chosen reply (s.run before) step).2 = .error e →
      ∀ id, (s.run (before ++ [(chosen, reply, step)])).store.peek? id
        = (s.run before).store.peek? id := by
  have hentries := entries_of_make? hs
  constructor
  · intro id d hd
    have hids : s.store.ids.Nodup := by
      rw [Store.ids, hentries]
      exact List.nodup_nil
    rcases peek?_run hids steps hd with ⟨old, hold, -⟩ | hmade
    · rw [Store.peek?, hentries] at hold
      cases hold
    · exact hmade
  · intro before chosen reply step later e _ hanswer id
    have heffect := effect_step chosen reply (s.run before) step
    rw [hanswer] at heffect
    rw [run_append]
    exact peek?_of_failed heffect id

/-- The run makes the first diagram and changes it, and the step that fails on the way does not. -/
theorem replay_of_shortRun : ∃ s d, make? Settings.standard = .ok s ∧
    (s.run shortRun).store.peek? "d" = some d ∧ isShort d = true ∧
    (∃ before chosen reply configuration layout later new,
      shortRun = before ++ (chosen, reply, .create "d" configuration layout) :: later ∧
      IsBuilt chosen configuration layout new ∧
      ComesFrom (s.run (before ++ [(chosen, reply, .create "d" configuration layout)])) later "d"
        new d) ∧
    (s.run (shortRun.take 3)).store.peek? "d" = (s.run (shortRun.take 2)).store.peek? "d" := by
  obtain ⟨s, d, hs, hd, hshort⟩ := exists_peek?_shortRun
  have hfails : ∃ e, (Service.step .standard none (s.run (shortRun.take 2)) (.on "f" .get)).2
      = .error e := by
    cases hs
    have hnotOk : (Service.step .standard none (run ⟨⟨128, [], by decide⟩, []⟩
        (shortRun.take 2)) (.on "f" .get)).2.isOk = false := by
      decide +kernel
    exact Outcome.exists_eq_error_of_isOk hnotOk
  obtain ⟨e, he⟩ := hfails
  exact ⟨s, d, hs, hd, hshort, (replay_of_run hs shortRun).1 "d" d hd,
    (replay_of_run hs shortRun).2 (shortRun.take 2) .standard none (.on "f" .get)
      (shortRun.drop 3) e rfl he "d"⟩

end BlockDiagram.Service
