import BlockDiagram.Proofs.Service.Step
import BlockDiagram.Proofs.Store.History

/-!
# Locks live no longer than their diagrams

A command may lock an id before it is known whether there is a diagram under it. Whatever comes of
the command, and whichever diagram is dropped for it, afterwards only kept diagrams have locks.

* `Service.Guarded`: the invariant.
* `Guarded.lock`, `Guarded.read`, `Guarded.write`, `Guarded.remove`: what keeps it.
* `Guarded.command_of_not_mem`: without a diagram under its id a command leaves all as it was.
* `locked_of_run`: the locks after every run.
-/

namespace BlockDiagram

/-! ## The ids of a store -/

namespace Store

variable {α : Type}

/-- What was held before a write and is not reported as dropped is still held. -/
theorem mem_ids_set {s : Store α} {id other : String} {value : α} (hother : other ∈ s.ids)
    (hleft : other ∉ (s.set id value).2) : other ∈ (s.set id value).1.ids := by
  by_cases hsame : other = id
  · subst hsame
    rw [mem_ids_iff, peek?_set_self]
    exact Option.some_ne_none _
  · have herased : other ∈ (s.entries.erase id).keys := by
      rw [Table.mem_keys_iff, Table.has_erase, ← Table.mem_keys_iff]
      exact ⟨hsame, hother⟩
    have hwritten : other ∈ Table.keys (s.entries.erase id ++ [(id, value)]) := by
      rw [Table.keys, List.map_append]
      exact List.mem_append_left _ herased
    rw [← List.take_append_drop
      ((s.entries.erase id ++ [(id, value)]).length - s.capacity)
      (s.entries.erase id ++ [(id, value)]), Table.keys, List.map_append] at hwritten
    exact (List.mem_append.1 hwritten).resolve_left hleft

theorem mem_ids_get {s : Store α} {id other : String} :
    other ∈ (s.get id).2.ids ↔ other ∈ s.ids := by
  rw [mem_ids_iff, peek?_get, ← mem_ids_iff]

theorem mem_ids_delete {s : Store α} {id other : String} :
    other ∈ (s.delete id).2.ids ↔ other ≠ id ∧ other ∈ s.ids := by
  rw [mem_ids_iff, peek?_delete, mem_ids_iff]
  split
  · next same => exact ⟨fun h => absurd rfl h, fun h => absurd same h.1⟩
  · next differs => exact ⟨fun h => ⟨differs, h⟩, And.right⟩

/-- A store holds no more than it has room for. -/
def Fits (s : Store α) : Prop := s.entries.length ≤ s.capacity

theorem Fits.get {s : Store α} (h : s.Fits) (id : String) : (s.get id).2.Fits := by
  cases hfound : s.peek? id with
  | none => rwa [get_of_peek?_eq_none hfound]
  | some value =>
    have hshorter : (s.entries.erase id).length < s.entries.length := by
      refine List.length_filter_lt_length_iff_exists.2 ⟨_, Table.mem_of_get? hfound, ?_⟩
      simp
    rw [get_of_peek?_eq_some hfound, Fits, List.length_append, List.length_singleton]
    exact Nat.le_trans hshorter h

@[simp] theorem capacity_get (s : Store α) (id : String) : (s.get id).2.capacity = s.capacity := by
  unfold get
  split <;> rfl

end Store

namespace Service

variable {settings : Settings} {reply : Option Reply} {s : Service} {id : String}

/-! ## The invariant -/

/-- Only kept diagrams have locks, and each has one at most. -/
structure Guarded (s : Service) : Prop where
  once : s.locks.Nodup
  kept : ∀ id ∈ s.locks, id ∈ s.store.ids

theorem mem_locks_unlock {ids : List String} {other : String} :
    other ∈ (s.unlock ids).locks ↔ other ∈ s.locks ∧ other ∉ ids := by
  simp [unlock]

theorem unlock_of_not_mem (h : id ∉ s.locks) : s.unlock [id] = s := by
  have hlocks : s.locks.filter (fun other => !([id].contains other)) = s.locks := by
    refine List.filter_eq_self.2 fun other hother => ?_
    have hne : other ≠ id := fun hsame => h (hsame ▸ hother)
    simpa using hne
  rw [unlock, hlocks]

/-- To lock an id and unlock it again is nothing, if it had no lock. -/
theorem unlock_lock_of_not_mem (h : id ∉ s.locks) : (s.lock id).unlock [id] = s := by
  have hlock : s.lock id = { s with locks := s.locks ++ [id] } := by
    rw [lock, if_neg]
    rwa [List.contains_iff_mem]
  have hself : [id].filter (fun other => !([id].contains other)) = [] := by simp
  rw [hlock, unlock, List.filter_append, hself, List.append_nil]
  exact unlock_of_not_mem h

namespace Guarded

theorem lock (h : s.Guarded) (hid : id ∈ s.store.ids) : (s.lock id).Guarded := by
  unfold Service.lock
  split
  · exact h
  · next hnew =>
    rw [List.contains_iff_mem] at hnew
    refine ⟨List.nodup_append.2 ⟨h.once, List.nodup_singleton _, ?_⟩, fun other hother => ?_⟩
    · rintro other hother _ hsingle rfl
      exact hnew (List.mem_singleton.1 hsingle ▸ hother)
    · rcases List.mem_append.1 hother with hother | hother
      · exact h.kept other hother
      · exact List.mem_singleton.1 hother ▸ hid

theorem unlock (h : s.Guarded) (ids : List String) : (s.unlock ids).Guarded :=
  ⟨h.once.filter _, fun other hother => h.kept other (mem_locks_unlock.1 hother).1⟩

theorem read (h : s.Guarded) (id : String) :
    Guarded { s with store := (s.store.get id).2 } :=
  ⟨h.once, fun other hother => Store.mem_ids_get.2 (h.kept other hother)⟩

/-- The locks of the diagrams that are dropped for a new one go with them. -/
theorem write (h : s.Guarded) (id : String) (d : Diagram) : (s.write id d).Guarded := by
  refine ⟨h.once.filter _, fun other hother => ?_⟩
  obtain ⟨hlocked, hleft⟩ := mem_locks_unlock.1 hother
  exact Store.mem_ids_set (h.kept other hlocked) hleft

theorem load (h : s.Guarded) (id : String) : (s.load id).1.Guarded := by
  rcases load_cases s id with ⟨d, -, hload⟩ | ⟨-, hload⟩
  · rw [hload]
    exact h.read id
  · rw [hload]
    exact h.unlock [id]

/-! ## Steps on an id that is not kept -/

theorem not_mem_locks (h : s.Guarded) (hid : id ∉ s.store.ids) : id ∉ s.locks :=
  fun hlocked => hid (h.kept id hlocked)

theorem peek?_eq_none (hid : id ∉ s.store.ids) : s.store.peek? id = none :=
  not_not.1 fun hne => hid (Store.mem_ids_iff.2 hne)

theorem load_of_not_mem (h : s.Guarded) (hid : id ∉ s.store.ids) :
    s.load id = (s, .error (.missing (.diagram id))) := by
  rcases load_cases s id with ⟨d, hd, -⟩ | ⟨-, hload⟩
  · rw [peek?_eq_none hid] at hd
    cases hd
  · rw [hload, unlock_of_not_mem (h.not_mem_locks hid)]

/-- The lock that a command takes on an id that is not kept is given back. -/
theorem load_lock_of_not_mem (h : s.Guarded) (hid : id ∉ s.store.ids) :
    (s.lock id).load id = (s, .error (.missing (.diagram id))) := by
  rcases load_cases (s.lock id) id with ⟨d, hd, -⟩ | ⟨-, hload⟩
  · rw [store_lock, peek?_eq_none hid] at hd
    cases hd
  · rw [hload, unlock_lock_of_not_mem (h.not_mem_locks hid)]

theorem remove_of_not_mem (h : s.Guarded) (hid : id ∉ s.store.ids) :
    s.remove id = (s, .error (.missing (.diagram id))) := by
  have hnone : s.store.entries.get? id = none := peek?_eq_none hid
  have hfound : s.store.entries.has id = false := by rw [Table.has, hnone]; rfl
  have hleft : ({ s.lock id with store := s.store } : Service).unlock [id] = s := by
    have hself : ({ s.lock id with store := s.store } : Service) = s.lock id := by
      rw [← store_lock s id]
    rw [hself, unlock_lock_of_not_mem (h.not_mem_locks hid)]
  simp only [remove, store_lock, Store.delete, Table.erase_of_get?_eq_none hnone, hfound, hleft]
  rfl

theorem command_of_not_mem (h : s.Guarded) (hid : id ∉ s.store.ids) (c : Command) :
    s.command settings reply id c = (s, .error (.missing (.diagram id))) := by
  unfold command
  cases hedit : edit? settings c with
  | some edit => simp only [apply, h.load_lock_of_not_mem hid]
  | none =>
    cases c with
    | delete => exact h.remove_of_not_mem hid
    | enhance => simp only [enhance, h.load_lock_of_not_mem hid]
    | _ => simp only [h.load_of_not_mem hid]

/-! ## Steps on a kept diagram -/

theorem apply (h : s.Guarded) (hid : id ∈ s.store.ids) (edit : Diagram → Except Error Diagram) :
    (s.apply id edit).1.Guarded := by
  have hloaded := (h.lock hid).load id
  unfold Service.apply
  split
  · next hload => rwa [hload] at hloaded
  · next hload =>
    rw [hload] at hloaded
    split
    · exact hloaded
    · exact hloaded.write id _

theorem remove (h : s.Guarded) (hid : id ∈ s.store.ids) : (s.remove id).1.Guarded := by
  have hlocked := h.lock hid
  refine ⟨hlocked.once.filter _, fun other hother => ?_⟩
  obtain ⟨hother, hne⟩ := mem_locks_unlock.1 hother
  exact Store.mem_ids_delete.2 ⟨by simpa using hne, hlocked.kept other hother⟩

theorem enhance (h : s.Guarded) (hid : id ∈ s.store.ids) : (s.enhance reply id).1.Guarded := by
  have hloaded := (h.lock hid).load id
  unfold Service.enhance
  split
  · next hload => rwa [hload] at hloaded
  · next hload =>
    rw [hload] at hloaded
    cases reply with
    | none => exact hloaded
    | some reply =>
      dsimp only
      split
      · exact hloaded.write id _
      · exact hloaded

theorem command (h : s.Guarded) (id : String) (c : Command) :
    (s.command settings reply id c).1.Guarded := by
  by_cases hid : id ∈ s.store.ids
  · have hloaded := h.load id
    unfold Service.command
    cases hedit : edit? settings c with
    | some edit => exact h.apply hid edit
    | none =>
      cases c with
      | delete => exact h.remove hid
      | enhance => exact h.enhance hid
      | _ => dsimp only; split <;> next hload => rwa [hload] at hloaded
  · rw [h.command_of_not_mem hid]
    exact h

theorem step (h : s.Guarded) (settings : Settings) (reply : Option Reply) (step : Step) :
    (s.step settings reply step).1.Guarded := by
  cases step with
  | create id configuration layout =>
    rw [Service.step, create]
    split
    · exact h.write id _
    · exact h
  | on id c => exact h.command id c

theorem run (h : s.Guarded) (steps : List (Settings × Option Reply × Step)) :
    (s.run steps).Guarded := by
  induction steps generalizing s with
  | nil => exact h
  | cons turn rest ih =>
    obtain ⟨settings, reply, step⟩ := turn
    exact ih (h.step settings reply step)

end Guarded

/-! ## Room -/

theorem Effect.fits {store after : Store Diagram} {step : Step} {answer : Except Error Answer}
    (h : Effect settings reply store step after answer) (hstore : store.Fits) :
    after.Fits ∧ after.capacity = store.capacity := by
  cases h with
  | made => exact ⟨Store.length_entries_set_le _ _ _, rfl⟩
  | changed => exact ⟨Store.length_entries_set_le _ _ _, Store.capacity_get _ _⟩
  | removed => exact ⟨Nat.le_trans (List.length_filter_le _ _) hstore, rfl⟩
  | failed hafter =>
    rcases hafter with rfl | ⟨id, rfl⟩
    · exact ⟨hstore, rfl⟩
    · exact ⟨hstore.get id, Store.capacity_get _ _⟩
  | looked => exact ⟨hstore.get _, Store.capacity_get _ _⟩

theorem make?_eq_ok (hs : make? settings = .ok s) :
    s.locks = [] ∧ s.store.entries = [] ∧ (s.store.capacity : Int) = settings.capacity := by
  unfold make? Store.make? at hs
  split at hs
  · next hpositive =>
    cases hs
    exact ⟨rfl, rfl, Int.toNat_of_nonneg (Int.le_of_lt hpositive)⟩
  · cases hs

theorem fits_run (hs : make? settings = .ok s) (steps : List (Settings × Option Reply × Step)) :
    (s.run steps).store.Fits ∧ ((s.run steps).store.capacity : Int) = settings.capacity := by
  obtain ⟨-, hentries, hcapacity⟩ := make?_eq_ok hs
  refine run_induction
    (P := fun store => store.Fits ∧ (store.capacity : Int) = settings.capacity)
    (fun _ _ _ _ _ _ hstore heffect => ?_) ⟨?_, hcapacity⟩ steps
  · obtain ⟨hfits, hsame⟩ := heffect.fits hstore.1
    exact ⟨hfits, hsame ▸ hstore.2⟩
  · rw [Store.Fits, hentries]
    exact Nat.zero_le _

/-- After every run of steps, failing ones included, only kept diagrams have locks, one each, and so
there are no more locks than the service has room for diagrams. A command on an id without a diagram
fails and leaves the service, its diagrams and its locks, as it was. -/
theorem locked_of_run (hs : make? settings = .ok s)
    (steps : List (Settings × Option Reply × Step)) :
    (∀ id ∈ (s.run steps).locks, id ∈ (s.run steps).store.ids) ∧ (s.run steps).locks.Nodup ∧
      ((s.run steps).locks.length : Int) ≤ settings.capacity ∧
      ∀ chosen reply id c, id ∉ (s.run steps).store.ids →
        Service.step chosen reply (s.run steps) (.on id c)
          = (s.run steps, .error (.missing (.diagram id))) := by
  have hguarded : (s.run steps).Guarded := by
    refine Guarded.run ⟨?_, fun id hid => ?_⟩ steps
    · rw [(make?_eq_ok hs).1]
      exact List.nodup_nil
    · rw [(make?_eq_ok hs).1] at hid
      cases hid
  obtain ⟨hfits, hcapacity⟩ := fits_run hs steps
  have hlength : (s.run steps).locks.length ≤ (s.run steps).store.ids.length :=
    hguarded.once.length_le_of_subset hguarded.kept
  refine ⟨hguarded.kept, hguarded.once, ?_, fun chosen reply id c hid =>
    hguarded.command_of_not_mem hid c⟩
  rw [Store.length_ids] at hlength
  rw [Store.Fits] at hfits
  omega

/-- A variable is drawn and gets a label, then an output is drawn under another id and gets one, and
a diagram that was never made is asked for. -/
def crowdedRun : List (Settings × Option Reply × Step) :=
  [(.standard, none,
      .create "d" (.record [("variable", .record [("region", .record [])])]) (.record [])),
    (.standard, none,
      .on "d" (.updateNode (.text "var.region") (.record [("label", .text "Region")]))),
    (.standard, none,
      .create "e" (.record [("output", .record [("address", .record [])])]) (.record [])),
    (.standard, none,
      .on "e" (.updateNode (.text "output.address") (.record [("label", .text "Address")]))),
    (.standard, none, .on "f" .enhance)]

/-- Where there is room for one diagram, the first one and its lock have gone. -/
theorem locked_of_crowdedRun : ∃ s, make? { Settings.standard with capacity := 1 } = .ok s ∧
    (s.run crowdedRun).locks = ["e"] ∧
    (∀ id ∈ (s.run crowdedRun).locks, id ∈ (s.run crowdedRun).store.ids) ∧
    ((s.run crowdedRun).locks.length : Int) ≤ 1 ∧ "d" ∉ (s.run crowdedRun).store.ids ∧
    Service.step .standard none (s.run crowdedRun) (.on "d" .delete)
      = (s.run crowdedRun, .error (.missing (.diagram "d"))) := by
  have hs : make? { Settings.standard with capacity := 1 } = .ok ⟨⟨1, [], by decide⟩, []⟩ := rfl
  obtain ⟨hkept, -, hroom, hunknown⟩ := locked_of_run hs crowdedRun
  have hlocks : (run ⟨⟨1, [], by decide⟩, []⟩ crowdedRun).locks = ["e"] := by decide +kernel
  have hids : "d" ∉ (run ⟨⟨1, [], by decide⟩, []⟩ crowdedRun).store.ids := by decide +kernel
  exact ⟨_, hs, hlocks, hkept, hroom, hids, hunknown .standard none "d" .delete hids⟩

end Service

end BlockDiagram
