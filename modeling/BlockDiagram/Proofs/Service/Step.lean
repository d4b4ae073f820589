import BlockDiagram.Proofs.Store
import BlockDiagram.Service

/-!
# What a step of a service can do

A step makes a diagram, changes one, removes one, or leaves all diagrams as they are; it does the
first three only if it succeeds. `Service.effect_step` is the one place where the commands are told
apart; what holds along a run is read off the effects of its steps.

* `Service.effect_step`: every step has one of the four effects.
-/

namespace BlockDiagram.Service

/-- The change of a diagram that a command stands for, given what the assistant would answer. -/
def change? (settings : Settings) (reply : Option Reply) :
    Command → Option (Diagram → Except Error Diagram)
  | .enhance =>
    match reply with
    | some (.answer content) =>
      match Json.embedded? content with
      | some (first :: rest) => some fun d => .ok (d.relabelled (first :: rest))
      | _ => none
    | _ => none
  | c => edit? settings c

/-- What a step does to the kept diagrams, with the store after it and its answer. -/
inductive Effect (settings : Settings) (reply : Option Reply) (store : Store Diagram) :
    Step → Store Diagram → Except Error Answer → Prop where
  | made {id : String} {configuration layout : Value} {d : Diagram} {answer : Answer}
      (hnew : newDiagram settings configuration layout = .ok d) :
      Effect settings reply store (.create id configuration layout) (store.set id d).1 (.ok answer)
  | changed {id : String} {c : Command} {change : Diagram → Except Error Diagram}
      {old new : Diagram} {answer : Answer} (hchange : change? settings reply c = some change)
      (hold : store.peek? id = some old) (hnew : change old = .ok new) :
      Effect settings reply store (.on id c) ((store.get id).2.set id new).1 (.ok answer)
  | removed {id : String} {answer : Answer} :
      Effect settings reply store (.on id .delete) (store.delete id).2 (.ok answer)
  | failed {step : Step} {after : Store Diagram} {e : Error}
      (hafter : after = store ∨ ∃ id, after = (store.get id).2) :
      Effect settings reply store step after (.error e)
  | looked {id : String} {c : Command} {answer : Answer}
      (hchange : change? settings reply c = none) (hdelete : c ≠ .delete) :
      Effect settings reply store (.on id c) (store.get id).2 (.ok answer)

/-! ## Steps -/

@[simp] theorem store_lock (s : Service) (id : String) : (s.lock id).store = s.store := by
  unfold lock
  split <;> rfl

@[simp] theorem store_unlock (s : Service) (ids : List String) :
    (s.unlock ids).store = s.store := rfl

@[simp] theorem store_write (s : Service) (id : String) (d : Diagram) :
    (s.write id d).store = (s.store.set id d).1 := rfl

/-- Loading finds a kept diagram and refreshes it, or fails. -/
theorem load_cases (s : Service) (id : String) :
    (∃ d, s.store.peek? id = some d ∧
        s.load id = ({ s with store := (s.store.get id).2 }, .ok d)) ∨
      (s.store.peek? id = none ∧ s.load id = (s.unlock [id], .error (.missing (.diagram id)))) := by
  cases h : s.store.peek? id with
  | none =>
    right
    refine ⟨rfl, ?_⟩
    unfold load
    rw [Store.get_of_peek?_eq_none h]
  | some d =>
    left
    refine ⟨d, rfl, ?_⟩
    unfold load
    rw [Store.get_of_peek?_eq_some h]

theorem load_of_peek? {s : Service} {id : String} {d : Diagram} (hd : s.store.peek? id = some d) :
    s.load id = ({ s with store := (s.store.get id).2 }, .ok d) := by
  rcases load_cases s id with ⟨found, hfound, hload⟩ | ⟨hnone, -⟩
  · rw [hd] at hfound
    cases hfound
    exact hload
  · rw [hd] at hnone
    cases hnone

variable {settings : Settings} {reply : Option Reply}

theorem effect_apply (s : Service) (id : String) {c : Command}
    {edit : Diagram → Except Error Diagram} (hedit : change? settings reply c = some edit) :
    Effect settings reply s.store (.on id c) (s.apply id edit).1.store (s.apply id edit).2 := by
  rcases load_cases (s.lock id) id with ⟨d, hd, hload⟩ | ⟨hd, hload⟩
  · simp only [store_lock] at hd
    unfold apply
    rw [hload]
    dsimp only
    cases hnew : edit d with
    | error e =>
      refine .failed (.inr ⟨id, ?_⟩)
      simp
    | ok new =>
      simp only [store_write, store_lock]
      exact .changed hedit hd hnew
  · unfold apply
    rw [hload]
    refine .failed (.inl ?_)
    simp

/-- A question brings nothing, or the diagram is relabelled by the answer to it. -/
theorem polished_cases (settings : Settings) (reply : Reply) (d : Diagram) :
    (d.polished reply = d.unpolished ∧ change? settings (some reply) .enhance = none) ∨
      ∃ relabel : Diagram → Except Error Diagram,
        change? settings (some reply) .enhance = some relabel ∧
        relabel d = .ok (d.polished reply).diagram ∧ (d.polished reply).isPolished = true := by
  cases reply with
  | failure => exact .inl ⟨rfl, rfl⟩
  | answer content =>
    cases hfound : Json.embedded? content with
    | none => simp [Diagram.polished, change?, hfound]
    | some fields =>
      cases fields with
      | nil => simp [Diagram.polished, change?, hfound]
      | cons first rest => simp [Diagram.polished, change?, hfound]

theorem effect_enhance (s : Service) (id : String) :
    Effect settings reply s.store (.on id .enhance) (s.enhance reply id).1.store
      (s.enhance reply id).2 := by
  rcases load_cases (s.lock id) id with ⟨d, hd, hload⟩ | ⟨hd, hload⟩
  · simp only [store_lock] at hd hload
    unfold enhance
    rw [hload]
    cases reply with
    | none => exact .looked rfl (by simp)
    | some reply =>
      rcases polished_cases settings reply d with ⟨hnone, hchange⟩ | ⟨relabel, hchange, hnew, hdone⟩
      · simp only [hnone, Diagram.unpolished]
        exact .looked hchange (by simp)
      · simp only [hdone, if_true, store_write]
        exact .changed hchange hd hnew
  · simp only [store_lock] at hd
    unfold enhance
    rw [hload]
    exact .failed (.inl (store_lock s id))

theorem effect_remove (s : Service) (id : String) :
    Effect settings reply s.store (.on id .delete) (s.remove id).1.store (s.remove id).2 := by
  simp only [remove, store_lock, store_unlock]
  cases hfound : (s.store.delete id).1 with
  | true =>
    rw [if_pos rfl]
    exact .removed
  | false =>
    rw [if_neg (by simp)]
    refine .failed (.inl ?_)
    have hnone : s.store.entries.get? id = none := by
      simpa [Store.delete, Table.has] using hfound
    simp only [Store.delete, Table.erase_of_get?_eq_none hnone]

/-- Reading a diagram changes none, whatever is then made of it. -/
theorem effect_load (s : Service) (id : String) {c : Command}
    (hchange : change? settings reply c = none) (hdelete : c ≠ .delete)
    (answer : Diagram → Except Error Answer) :
    Effect settings reply s.store (.on id c) (s.load id).1.store ((s.load id).2 >>= answer) := by
  rcases load_cases s id with ⟨d, -, hload⟩ | ⟨-, hload⟩
  · rw [hload]
    cases hanswer : answer d with
    | error e =>
      simp only [bind, Except.bind, hanswer]
      exact .failed (.inr ⟨id, rfl⟩)
    | ok a =>
      simp only [bind, Except.bind, hanswer]
      exact .looked hchange hdelete
  · rw [hload]
    exact .failed (.inl rfl)

theorem effect_command (s : Service) (id : String) (c : Command) :
    Effect settings reply s.store (.on id c) (s.command settings reply id c).1.store
      (s.command settings reply id c).2 := by
  cases hedit : edit? settings c with
  | some edit =>
    simp only [command, hedit]
    refine effect_apply s id ?_
    cases c <;> first | exact hedit | cases hedit
  | none =>
    simp only [command, hedit]
    cases c with
    | delete => exact effect_remove s id
    | enhance => exact effect_enhance s id
    | get =>
      have hchange : change? settings reply .get = none := rfl
      have heffect := effect_load s id hchange (by simp) fun d => .ok (.diagram d)
      rcases load_cases s id with ⟨d, -, hload⟩ | ⟨-, hload⟩ <;> rw [hload] at heffect ⊢ <;>
        exact heffect
    | generateCode withHeader =>
      have hchange : change? settings reply (.generateCode withHeader) = none := rfl
      have heffect := effect_load s id hchange (by simp) fun d =>
        (filesOf settings d withHeader).map .files
      rcases load_cases s id with ⟨d, -, hload⟩ | ⟨-, hload⟩ <;> rw [hload] at heffect ⊢ <;>
        exact heffect
    | _ => cases hedit

/-- What a step does to the kept diagrams is one of the effects. -/
theorem effect_step (settings : Settings) (reply : Option Reply) (s : Service) (step : Step) :
    Effect settings reply s.store step (s.step settings reply step).1.store
      (s.step settings reply step).2 := by
  cases step with
  | create id configuration layout =>
    simp only [Service.step, create]
    cases hnew : newDiagram settings configuration layout with
    | ok d => exact .made hnew
    | error e => exact .failed (.inl rfl)
  | on id c => exact effect_command s id c

/-! ## Runs -/

theorem Effect.nodup_ids {store after : Store Diagram} {step : Step}
    {answer : Except Error Answer} (h : Effect settings reply store step after answer)
    (hids : store.ids.Nodup) : after.ids.Nodup := by
  cases h with
  | made => exact Store.nodup_ids_set hids _ _
  | changed => exact Store.nodup_ids_set (Store.nodup_ids_get hids _) _ _
  | removed => exact Store.nodup_ids_delete hids _
  | failed hafter =>
    rcases hafter with rfl | ⟨id, rfl⟩
    · exact hids
    · exact Store.nodup_ids_get hids id
  | looked => exact Store.nodup_ids_get hids _

/-- What holds of a service's store and is kept by every effect holds after every run. -/
theorem run_induction {P : Store Diagram → Prop}
    (hstep : ∀ settings reply store step after answer, P store →
      Effect settings reply store step after answer → P after)
    {s : Service} (hs : P s.store) (steps : List (Settings × Option Reply × Step)) :
    P (s.run steps).store := by
  induction steps generalizing s with
  | nil => exact hs
  | cons turn rest ih =>
    obtain ⟨settings, reply, step⟩ := turn
    exact ih (hstep settings reply s.store step _ _ hs (effect_step settings reply s step))

theorem entries_of_make? {settings : Settings} {s : Service} (h : make? settings = .ok s) :
    s.store.entries = [] := by
  unfold make? Store.make? at h
  split at h
  · cases h
    rfl
  · cases h

/-! ## A short run -/

/-- A variable, a network that refers to it and an output of the network are drawn under one id, and
an output alone under another. A diagram that was never made is asked for. Then a second variable is
put beside the first one, which gets a label. -/
def shortRun : List (Settings × Option Reply × Step) :=
  [(.standard, none, .create "d" (.record [
      ("variable", .record [("region", .record [])]),
      ("resource", .record [("net", .record [("main", .record [
        ("zone", .text "${var.region}")])])]),
      ("output", .record [("address", .record [("value", .text "${net.main.id}")])])])
      (.record [])),
    (.standard, none,
      .create "e" (.record [("output", .record [("address", .record [])])]) (.record [])),
    (.standard, none, .on "f" .get),
    (.standard, none,
      .on "d" (.addNode (.record [("kind", .text "variable"), ("name", .text "zone")]))),
    (.standard, none,
      .on "d" (.updateNode (.text "var.region") (.record [("label", .text "Region")])))]

/-- Whether a diagram has the nodes of the short run, and its edges. -/
def isShort (d : Diagram) : Bool :=
  d.nodes.keys == ["resource.net.main", "var.region", "output.address", "var.zone"]
    && d.edges.map (fun edge => edge.id.text?)
      == [some "var.region:resource.net.main", some "resource.net.main:output.address"]

theorem exists_peek?_shortRun : ∃ s d, make? Settings.standard = .ok s ∧
    (s.run shortRun).store.peek? "d" = some d ∧ isShort d = true := by
  have hkept : (run ⟨⟨128, [], by decide⟩, []⟩ shortRun |>.store.peek? "d").any isShort = true := by
    decide +kernel
  obtain ⟨d, hd, hshort⟩ := (Option.any_eq_true _ _).1 hkept
  exact ⟨_, d, rfl, hd, hshort⟩

end BlockDiagram.Service
