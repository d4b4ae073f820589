import BlockDiagram.Proofs.Store

/-!
# What a store holds is what was written and used last

Along a run of requests it is noted what happens: an entry is written, asked for, deleted, or gone
without having been deleted. What a store holds and in which order is read off these notes alone.

* `Store.Event`, `Store.lastUse`, `Store.lastWritten`: what happens, and what comes of it.
* `Store.set_of_room`, `Store.set_of_full`: an entry is dropped only for a new one in a full store,
  and it is the first one.
* `Store.History.IsFaithful.next`: what every request keeps.
* `Store.faithful_of_requests`: what a store holds after any requests, and what the next one does.
-/

namespace BlockDiagram.Store

variable {α : Type}

/-! ## Requests and events -/

/-- What can be asked of a store. -/
inductive Request (α : Type) where
  | set (id : String) (value : α)
  | get (id : String)
  | contains (id : String)
  | delete (id : String)
deriving Repr

/-- What can happen in a store. -/
inductive Event (α : Type) where
  /-- An entry is written, a new one if there was none under its key. -/
  | written (id : String) (value : α) (isNew : Bool)
  /-- An entry is asked for. -/
  | hit (id : String)
  /-- An entry that is not there is asked for, or to be deleted. -/
  | missed (id : String)
  | deleted (id : String)
  /-- An entry is gone that was not deleted. -/
  | evicted (id : String)
deriving Repr

namespace Event

/-- Whether an event makes the entry under a key the most recent one. -/
def uses : Event α → String → Bool
  | written id _ _, key => id == key
  | hit id, key => id == key
  | _, _ => false

def isInsertion : Event α → Bool
  | written _ _ isNew => isNew
  | _ => false

def isDeletion : Event α → Bool
  | deleted _ => true
  | _ => false

def evicted? : Event α → Option String
  | evicted id => some id
  | _ => none

end Event

/-- When the entry under a key was used last, as the number of events up to then; zero if it never
was. The last event comes first. -/
def lastUse : List (Event α) → String → Nat
  | [], _ => 0
  | event :: earlier, key => if event.uses key then earlier.length + 1 else lastUse earlier key

/-- What was written last under a key, unless it was deleted or evicted since. The last event comes
first. -/
def lastWritten : List (Event α) → String → Option α
  | [], _ => none
  | .written id value _ :: earlier, key => if id = key then some value else lastWritten earlier key
  | .deleted id :: earlier, key => if id = key then none else lastWritten earlier key
  | .evicted id :: earlier, key => if id = key then none else lastWritten earlier key
  | .hit _ :: earlier, key => lastWritten earlier key
  | .missed _ :: earlier, key => lastWritten earlier key

/-- The store after a request, and the keys that it reports as dropped. -/
def after (s : Store α) : Request α → Store α × List String
  | .set id value => s.set id value
  | .get id => ((s.get id).2, [])
  | .contains id => ((s.contains id).2, [])
  | .delete id => ((s.delete id).2, [])

/-- Whether a request is to delete the entry under a key. -/
def Request.deletes : Request α → String → Bool
  | delete id, key => id == key
  | _, _ => false

/-- The keys of the entries that are gone after a request and were not deleted. -/
def lost (s : Store α) (request : Request α) : List String :=
  s.ids.filter fun id => !(s.after request).1.ids.contains id && !request.deletes id

/-- What a request comes to, apart from entries that are lost. -/
def outcome (s : Store α) : Request α → Event α
  | .set id value => .written id value (!s.ids.contains id)
  | .get id => if s.ids.contains id then .hit id else .missed id
  | .contains id => if s.ids.contains id then .hit id else .missed id
  | .delete id => if s.ids.contains id then .deleted id else .missed id

/-- What happens at a request, in order. -/
def events (s : Store α) (request : Request α) : List (Event α) :=
  s.outcome request :: (s.lost request).map .evicted

/-- A store, what happened in it, the last event first, and the keys that it reported as dropped, in
order. -/
structure History (α : Type) where
  store : Store α
  log : List (Event α)
  reported : List String

namespace History

/-- The history after one more request. -/
def next (h : History α) (request : Request α) : History α where
  store := (h.store.after request).1
  log := (h.store.events request).reverse ++ h.log
  reported := h.reported ++ (h.store.after request).2

/-- The history of a store after requests. -/
def ofRequests (s : Store α) (requests : List (Request α)) : History α :=
  requests.foldl next ⟨s, [], []⟩

end History

/-! ## Reading and writing -/

theorem fst_get (s : Store α) (id : String) : (s.get id).1 = s.peek? id := by
  cases h : s.peek? id with
  | none => rw [get_of_peek?_eq_none h]
  | some value => rw [get_of_peek?_eq_some h]

theorem length_ids (s : Store α) : s.ids.length = s.entries.length := List.length_map _

theorem mem_ids_iff {s : Store α} {id : String} : id ∈ s.ids ↔ s.peek? id ≠ none := by
  rw [ids, Table.mem_keys_iff, Table.has, Option.isSome_iff_ne_none]
  rfl

theorem ids_written {s : Store α} (hids : s.ids.Nodup) (id : String) (value : α) :
    Table.keys (s.entries.erase id ++ [(id, value)]) = s.ids.erase id ++ [id] := by
  rw [Table.keys, List.map_append, hids.erase_eq_filter, ids, ← Table.keys_erase]
  rfl

/-- Where there is room, or an entry under the key, writing drops none. -/
theorem set_of_room {s : Store α} (hids : s.ids.Nodup) {id : String}
    (hroom : (s.ids.erase id).length < s.capacity) (value : α) :
    s.set id value
      = ({ s with entries := s.entries.erase id ++ [(id, value)] }, []) := by
  have hlength : (s.entries.erase id ++ [(id, value)]).length = (s.ids.erase id).length + 1 := by
    rw [← List.length_map Prod.fst, ← Table.keys, ids_written hids, List.length_append,
      List.length_singleton]
  have hsurplus : (s.entries.erase id ++ [(id, value)]).length - s.capacity = 0 := by omega
  simp only [set, hsurplus, List.drop_zero, List.take_zero]
  rfl

/-- A full store drops its first entry for a new one. -/
theorem set_of_full {s : Store α} {id : String} (hnew : id ∉ s.ids)
    (hfull : s.ids.length = s.capacity) (value : α) :
    ∃ first rest, s.entries = first :: rest ∧
      s.set id value = ({ s with entries := rest ++ [(id, value)] }, [first.1]) := by
  have hpositive := s.positive
  have hkept : s.entries.erase id = s.entries :=
    Table.erase_of_get?_eq_none (Table.get?_eq_none_iff.2 hnew)
  rw [length_ids] at hfull
  cases hentries : s.entries with
  | nil =>
    rw [hentries, List.length_nil] at hfull
    omega
  | cons first rest =>
    refine ⟨first, rest, rfl, ?_⟩
    rw [hentries] at hkept
    have hsurplus : (first :: rest ++ [(id, value)]).length - s.capacity = 1 := by
      rw [hentries] at hfull
      simp only [List.length_append, List.length_cons, List.length_nil] at hfull ⊢
      omega
    simp only [set, hentries, hkept, hsurplus]
    rfl

/-! ## Events -/

theorem lastUse_le_length (log : List (Event α)) (id : String) : lastUse log id ≤ log.length := by
  induction log with
  | nil => exact Nat.le_refl 0
  | cons event earlier ih =>
    rw [lastUse, List.length_cons]
    split
    · exact Nat.le_refl _
    · exact Nat.le_succ_of_le ih

theorem lastUse_cons_of_uses {event : Event α} {id : String} (h : event.uses id = true)
    (log : List (Event α)) : lastUse (event :: log) id = log.length + 1 := by
  rw [lastUse, if_pos h]

theorem lastUse_cons_of_not_uses {event : Event α} {id : String} (h : event.uses id = false)
    (log : List (Event α)) : lastUse (event :: log) id = lastUse log id := by
  rw [lastUse, h]
  rfl

/-- The keys of a store, in the order of their last uses. -/
def IsOrdered (log : List (Event α)) (keys : List String) : Prop :=
  keys.Pairwise fun older newer => lastUse log older < lastUse log newer

/-- An event that uses no key leaves the order as it is. -/
theorem IsOrdered.cons {log : List (Event α)} {keys : List String} (h : IsOrdered log keys)
    {event : Event α} (hevent : ∀ key ∈ keys, event.uses key = false) :
    IsOrdered (event :: log) keys := by
  refine List.Pairwise.imp_of_mem ?_ h
  intro older newer holder hnewer hlt
  rwa [lastUse_cons_of_not_uses (hevent older holder),
    lastUse_cons_of_not_uses (hevent newer hnewer)]

/-- A key that is used comes last. -/
theorem IsOrdered.append {log : List (Event α)} {keys : List String} (h : IsOrdered log keys)
    {id : String} (hid : id ∉ keys) {event : Event α}
    (hevent : ∀ key, event.uses key = (id == key)) :
    IsOrdered (event :: log) (keys ++ [id]) := by
  have hothers : ∀ key ∈ keys, event.uses key = false := by
    intro key hkey
    rw [hevent, beq_eq_false_iff_ne]
    rintro rfl
    exact hid hkey
  refine List.pairwise_append.2 ⟨h.cons hothers, List.pairwise_singleton _ _, ?_⟩
  intro older holder newer hnewer
  have hid : event.uses id = true := by rw [hevent, beq_self_eq_true]
  rw [List.mem_singleton.1 hnewer, lastUse_cons_of_uses hid,
    lastUse_cons_of_not_uses (hothers older holder)]
  exact Nat.lt_succ_of_le (lastUse_le_length log older)

/-! ## Losses -/

theorem lost_eq_nil {s : Store α} {request : Request α}
    (h : ∀ id ∈ s.ids, request.deletes id = false → id ∈ (s.after request).1.ids) :
    s.lost request = [] := by
  refine List.filter_eq_nil_iff.2 fun id hid => ?_
  rw [Bool.and_eq_true, Bool.not_eq_true', Bool.not_eq_true', ← Bool.not_eq_true,
    List.contains_iff_mem]
  exact fun hlost => hlost.1 (h id hid hlost.2)

theorem lost_get (s : Store α) (id : String) :
    s.lost (.get id) = [] ∧ s.lost (.contains id) = [] := by
  have hkept : ∀ other ∈ s.ids, other ∈ (s.get id).2.ids := by
    intro other hother
    rw [mem_ids_iff, peek?_get, ← mem_ids_iff]
    exact hother
  exact ⟨lost_eq_nil fun other hother _ => hkept other hother,
    lost_eq_nil fun other hother _ => hkept other hother⟩

theorem lost_delete (s : Store α) (id : String) : s.lost (.delete id) = [] := by
  refine lost_eq_nil fun other hother hdeletes => ?_
  have hne : other ≠ id := Ne.symm (beq_eq_false_iff_ne.1 hdeletes)
  show other ∈ (s.delete id).2.ids
  rwa [mem_ids_iff, peek?_delete, if_neg hne, ← mem_ids_iff]

theorem lost_set_of_room {s : Store α} (hids : s.ids.Nodup) {id : String}
    (hroom : (s.ids.erase id).length < s.capacity) (value : α) : s.lost (.set id value) = [] := by
  refine lost_eq_nil fun other hother _ => ?_
  have hafter : (s.after (.set id value)).1.ids = s.ids.erase id ++ [id] := by
    rw [after, set_of_room hids hroom]
    exact ids_written hids id value
  rw [hafter, List.mem_append, hids.mem_erase_iff, List.mem_singleton]
  by_cases hsame : other = id
  · exact .inr hsame
  · exact .inl ⟨hsame, hother⟩

/-- What is lost when the first entry goes for a new one. -/
theorem lost_set_of_full {s : Store α} (hids : s.ids.Nodup) {id : String} {first : String × α}
    {rest : Table α} (hnew : id ∉ s.ids) (hentries : s.entries = first :: rest) {value : α}
    (hset : s.set id value = ({ s with entries := rest ++ [(id, value)] }, [first.1])) :
    s.lost (.set id value) = [first.1] := by
  have hkeys : s.ids = first.1 :: rest.keys := by rw [ids, hentries]; rfl
  have hafter : (s.after (.set id value)).1.ids = rest.keys ++ [id] := by
    rw [after, hset]
    exact List.map_append
  rw [hkeys] at hids hnew
  have hfirst : first.1 ∉ rest.keys ++ [id] := by
    rw [List.mem_append, List.mem_singleton, not_or]
    exact ⟨(List.nodup_cons.1 hids).1, fun hsame => hnew (hsame ▸ List.mem_cons_self)⟩
  have hrest : (rest.keys.filter fun key => !(rest.keys ++ [id]).contains key && !false) = [] := by
    refine List.filter_eq_nil_iff.2 fun key hkey => ?_
    rw [List.contains_iff_mem.2 (List.mem_append_left _ hkey)]
    exact Bool.false_ne_true
  simp only [lost, hafter, hkeys, Request.deletes]
  rw [List.filter_cons_of_pos, hrest]
  rw [Bool.and_eq_true, Bool.not_eq_true', ← Bool.not_eq_true, List.contains_iff_mem]
  exact ⟨hfirst, rfl⟩

/-! ## What every request keeps -/

namespace History

/-- What a store holds, and in which order, is what happened in it. -/
structure IsFaithful (h : History α) : Prop where
  nodup : h.store.ids.Nodup
  length_le : h.store.ids.length ≤ h.store.capacity
  ordered : IsOrdered h.log h.store.ids
  content : ∀ id, h.store.peek? id = lastWritten h.log id
  reported : h.reported = h.log.reverse.filterMap Event.evicted?
  balance : h.log.countP Event.isInsertion
    = h.store.ids.length + h.log.countP Event.isDeletion + h.reported.length

theorem IsFaithful.start {s : Store α} (h : s.entries = []) : (History.mk s [] []).IsFaithful where
  nodup := by
    rw [ids, h]
    exact List.nodup_nil
  length_le := by
    rw [length_ids, h]
    exact Nat.zero_le _
  ordered := by
    show IsOrdered [] s.ids
    rw [ids, h]
    exact List.Pairwise.nil
  content id := by
    rw [peek?, h]
    rfl
  reported := rfl
  balance := by
    simp [length_ids, h]

variable {h : History α}

/-- A request at which no entry is touched. -/
theorem IsFaithful.missed (hh : h.IsFaithful) (id : String) :
    (History.mk h.store (.missed id :: h.log) h.reported).IsFaithful where
  nodup := hh.nodup
  length_le := hh.length_le
  ordered := hh.ordered.cons fun _ _ => rfl
  content := hh.content
  reported := by
    rw [hh.reported, List.reverse_cons, List.filterMap_append]
    exact (List.append_nil _).symm
  balance := hh.balance

/-- An entry that is used and stays, or becomes, what it is. -/
theorem IsFaithful.used (hh : h.IsFaithful) {id : String} {value : α} {event : Event α}
    (hroom : (h.store.ids.erase id).length < h.store.capacity)
    (huses : ∀ key, event.uses key = (id == key))
    (hwritten : ∀ key, lastWritten (event :: h.log) key
      = if key = id then some value else lastWritten h.log key)
    (hinsertion : event.isInsertion = !h.store.ids.contains id)
    (hdeletion : event.isDeletion = false) (hevicted : event.evicted? = none) :
    (History.mk { h.store with entries := h.store.entries.erase id ++ [(id, value)] }
      (event :: h.log) h.reported).IsFaithful := by
  have hkeys := ids_written hh.nodup id value
  have hlength : (h.store.ids.erase id ++ [id]).length = (h.store.ids.erase id).length + 1 := by
    rw [List.length_append, List.length_singleton]
  refine ⟨nodup_written hh.nodup id value, ?_, ?_, fun key => ?_, ?_, ?_⟩
  · show (Table.keys _).length ≤ _
    rw [hkeys, hlength]
    exact hroom
  · show IsOrdered _ (Table.keys _)
    rw [hkeys]
    exact IsOrdered.append (hh.ordered.sublist List.erase_sublist) hh.nodup.not_mem_erase huses
  · show Table.get? _ key = _
    rw [get?_written, hwritten, ← hh.content]
    rfl
  · rw [hh.reported, List.reverse_cons, List.filterMap_append, List.filterMap_cons_none hevicted,
      List.filterMap_nil, List.append_nil]
  · show _ = (Table.keys _).length + _ + _
    have hbalance := hh.balance
    rw [hkeys, hlength, List.countP_cons, List.countP_cons, hinsertion, hdeletion]
    dsimp only
    by_cases hid : id ∈ h.store.ids
    · have herase := List.length_erase_of_mem hid
      have hpositive := List.length_pos_of_mem hid
      simp only [List.contains_iff_mem.2 hid, Bool.not_true, Bool.false_eq_true, if_false]
      omega
    · simp only [List.erase_of_not_mem hid, List.contains_eq_mem, hid, decide_false, Bool.not_false,
        Bool.false_eq_true, if_true, if_false]
      omega

/-- The first entry of a full store that goes for a new one. -/
theorem IsFaithful.evicted (hh : h.IsFaithful) {id : String} {first : String × α}
    {rest : Table α} (hnew : id ∉ h.store.ids) (hentries : h.store.entries = first :: rest)
    (value : α) :
    (History.mk { h.store with entries := rest ++ [(id, value)] }
      (.evicted first.1 :: .written id value true :: h.log)
      (h.reported ++ [first.1])).IsFaithful := by
  have hids : h.store.ids = first.1 :: rest.keys := by rw [ids, hentries]; rfl
  have hkeys : Table.keys (rest ++ [(id, value)]) = rest.keys ++ [id] := List.map_append
  have hnodup := hh.nodup
  have hordered := hh.ordered
  have hlength := hh.length_le
  rw [hids, List.nodup_cons] at hnodup
  rw [hids, List.length_cons] at hlength
  rw [hids, List.mem_cons, not_or] at hnew
  obtain ⟨hne, hnew⟩ := hnew
  rw [hids] at hordered
  have hwritten : IsOrdered (Event.written id value true :: h.log) (rest.keys ++ [id]) :=
    IsOrdered.append (List.Pairwise.of_cons hordered) hnew fun _ => rfl
  refine ⟨?_, ?_, ?_, fun key => ?_, ?_, ?_⟩
  · show (Table.keys _).Nodup
    rw [hkeys]
    exact List.nodup_append.2 ⟨hnodup.2, List.nodup_singleton _, fun key hkey other hother heq =>
      hnew (List.mem_singleton.1 hother ▸ heq ▸ hkey)⟩
  · show (Table.keys _).length ≤ _
    rw [hkeys, List.length_append, List.length_singleton]
    exact hlength
  · show IsOrdered _ (Table.keys _)
    rw [hkeys]
    exact hwritten.cons fun _ _ => rfl
  · show Table.get? _ key = _
    have hcontent := hh.content key
    rw [peek?, hentries, Table.get?_cons] at hcontent
    rw [Table.get?_append, Table.get?_cons, Table.get?_nil, lastWritten, lastWritten]
    by_cases hfirst : first.1 = key
    · subst hfirst
      rw [if_pos rfl, if_neg hne, Table.get?_eq_none_iff.2 hnodup.1]
      rfl
    · rw [if_neg hfirst] at hcontent ⊢
      rw [hcontent]
      by_cases hkey : id = key
      · subst hkey
        rw [if_pos rfl, if_pos rfl, ← hcontent, Table.get?_eq_none_iff.2 hnew]
        rfl
      · rw [if_neg hkey, if_neg hkey, Option.or_none]
  · rw [hh.reported, List.reverse_cons, List.reverse_cons, List.filterMap_append,
      List.filterMap_append]
    simp [Event.evicted?]
  · show _ = (Table.keys _).length + _ + _
    have hbalance := hh.balance
    rw [hids, List.length_cons] at hbalance
    rw [hkeys, List.length_append, List.length_append, List.length_singleton, List.length_singleton]
    simp only [List.countP_cons, Event.isInsertion, Event.isDeletion, Bool.false_eq_true, if_false,
      if_true]
    omega

/-- A deletion of an entry that is there. -/
theorem IsFaithful.deleted (hh : h.IsFaithful) {id : String} (hid : id ∈ h.store.ids) :
    (History.mk { h.store with entries := h.store.entries.erase id } (.deleted id :: h.log)
      h.reported).IsFaithful := by
  have hkeys : (h.store.entries.erase id).keys = h.store.ids.erase id := by
    rw [Table.keys_erase, hh.nodup.erase_eq_filter]
    rfl
  refine ⟨Table.nodup_keys_erase hh.nodup id, ?_, ?_, fun key => ?_, ?_, ?_⟩
  · show (Table.keys _).length ≤ _
    rw [hkeys]
    exact Nat.le_trans List.length_erase_le hh.length_le
  · show IsOrdered _ (Table.keys _)
    rw [hkeys]
    exact IsOrdered.cons (hh.ordered.sublist List.erase_sublist) fun _ _ => rfl
  · show Table.get? _ key = _
    rw [lastWritten]
    split
    · next hsame => rw [← hsame, Table.get?_erase_self]
    · next hdiffers =>
      rw [Table.get?_erase_of_ne _ (Ne.symm hdiffers)]
      exact hh.content key
  · rw [hh.reported, List.reverse_cons, List.filterMap_append]
    exact (List.append_nil _).symm
  · show _ = (Table.keys _).length + _ + _
    have hbalance := hh.balance
    have herase := List.length_erase_of_mem hid
    have hpositive := List.length_pos_of_mem hid
    rw [hkeys]
    simp only [List.countP_cons, Event.isInsertion, Event.isDeletion, Bool.false_eq_true, if_false,
      if_true]
    omega

theorem IsFaithful.full_of_not_room (hh : h.IsFaithful) {id : String}
    (h' : ¬ (h.store.ids.erase id).length < h.store.capacity) :
    id ∉ h.store.ids ∧ h.store.ids.length = h.store.capacity := by
  have hlength := hh.length_le
  have hnew : id ∉ h.store.ids := by
    intro hid
    have hpositive := List.length_pos_of_mem hid
    rw [List.length_erase_of_mem hid] at h'
    omega
  rw [List.erase_of_not_mem hnew] at h'
  exact ⟨hnew, by omega⟩

/-- Reading an entry notes a hit or a miss. -/
theorem IsFaithful.read (hh : h.IsFaithful) (id : String) :
    (History.mk (h.store.get id).2
      ((if h.store.ids.contains id then .hit id else .missed id) :: h.log)
      h.reported).IsFaithful := by
  cases hpeek : h.store.peek? id with
  | none =>
    have hnot : id ∉ h.store.ids := fun hid => mem_ids_iff.1 hid hpeek
    rw [get_of_peek?_eq_none hpeek, if_neg (by simpa using hnot)]
    exact hh.missed id
  | some value =>
    have hid : id ∈ h.store.ids := mem_ids_iff.2 (by rw [hpeek]; exact Option.some_ne_none _)
    have hroom : (h.store.ids.erase id).length < h.store.capacity := by
      have hlength := hh.length_le
      have hpositive := List.length_pos_of_mem hid
      rw [List.length_erase_of_mem hid]
      omega
    rw [get_of_peek?_eq_some hpeek, if_pos (List.contains_iff_mem.2 hid)]
    refine hh.used hroom (fun _ => rfl) (fun key => ?_) ?_ rfl rfl
    · rw [lastWritten]
      split
      · next hsame => rw [hsame, ← hh.content, hpeek]
      · rfl
    · rw [List.contains_iff_mem.2 hid]
      rfl

/-- Every request keeps a history faithful. -/
theorem IsFaithful.next (hh : h.IsFaithful) (request : Request α) :
    (h.next request).IsFaithful := by
  cases request with
  | get id =>
    simp only [History.next, events, (lost_get h.store id).1, List.map_nil, after, List.append_nil]
    exact hh.read id
  | contains id =>
    simp only [History.next, events, (lost_get h.store id).2, List.map_nil, after, List.append_nil]
    exact hh.read id
  | delete id =>
    simp only [History.next, events, lost_delete, List.map_nil, after, List.append_nil, outcome]
    by_cases hid : id ∈ h.store.ids
    · rw [if_pos (List.contains_iff_mem.2 hid)]
      exact hh.deleted hid
    · rw [if_neg (by simpa using hid), Store.delete,
        Table.erase_of_get?_eq_none (Table.get?_eq_none_iff.2 hid)]
      exact hh.missed id
  | set id value =>
    by_cases hroom : (h.store.ids.erase id).length < h.store.capacity
    · simp only [History.next, events, lost_set_of_room hh.nodup hroom, List.map_nil, after,
        outcome, set_of_room hh.nodup hroom, List.append_nil]
      refine hh.used hroom (fun _ => rfl) (fun key => ?_) rfl rfl rfl
      rw [lastWritten]
      exact if_congr eq_comm rfl rfl
    · obtain ⟨hnew, hfull⟩ := hh.full_of_not_room hroom
      obtain ⟨first, rest, hentries, hset⟩ := set_of_full hnew hfull value
      simp only [History.next, events, lost_set_of_full hh.nodup hnew hentries hset, after, outcome,
        hset]
      have hnotContains : h.store.ids.contains id = false := by simpa using hnew
      rw [hnotContains]
      exact hh.evicted hnew hentries value

theorem capacity_next (h : History α) (request : Request α) :
    (h.next request).store.capacity = h.store.capacity := by
  have hget : ∀ id, (h.store.get id).2.capacity = h.store.capacity := by
    intro id
    unfold Store.get
    split <;> rfl
  cases request with
  | set => rfl
  | get id => exact hget id
  | contains id => exact hget id
  | delete => rfl

/-- What every request keeps holds after any requests. -/
theorem IsFaithful.ofRequests {s : Store α} (hs : (History.mk s [] []).IsFaithful)
    (requests : List (Request α)) : (History.ofRequests s requests).IsFaithful ∧
      (History.ofRequests s requests).store.capacity = s.capacity := by
  suffices hfold : ∀ h : History α, h.IsFaithful → (requests.foldl History.next h).IsFaithful ∧
      (requests.foldl History.next h).store.capacity = h.store.capacity from hfold _ hs
  induction requests with
  | nil => exact fun _ hh => ⟨hh, rfl⟩
  | cons request rest ih =>
    intro h hh
    obtain ⟨hfaithful, hcapacity⟩ := ih _ (hh.next request)
    exact ⟨hfaithful, hcapacity.trans (h.capacity_next request)⟩

/-- A request reports just what is lost. -/
theorem IsFaithful.reports (hh : h.IsFaithful) (request : Request α) :
    (h.store.after request).2 = h.store.lost request := by
  cases request with
  | get id => rw [(lost_get h.store id).1, after]
  | contains id => rw [(lost_get h.store id).2, after]
  | delete id => rw [lost_delete, after]
  | set id value =>
    by_cases hroom : (h.store.ids.erase id).length < h.store.capacity
    · rw [lost_set_of_room hh.nodup hroom, after, set_of_room hh.nodup hroom]
    · obtain ⟨hnew, hfull⟩ := hh.full_of_not_room hroom
      obtain ⟨first, rest, hentries, hset⟩ := set_of_full hnew hfull value
      rw [lost_set_of_full hh.nodup hnew hentries hset, after, hset]

/-- A new entry in a full store takes the place of the one whose last use is the oldest. -/
theorem IsFaithful.lost_of_full (hh : h.IsFaithful) {id : String} (hnew : id ∉ h.store.ids)
    (hfull : h.store.ids.length = h.store.capacity) (value : α) :
    ∃ oldest ∈ h.store.ids, h.store.lost (.set id value) = [oldest] ∧
      ∀ other ∈ h.store.ids, other ≠ oldest → lastUse h.log oldest < lastUse h.log other := by
  obtain ⟨first, rest, hentries, hset⟩ := set_of_full hnew hfull value
  have hids : h.store.ids = first.1 :: Table.keys rest := by rw [ids, hentries]; rfl
  have hordered := hh.ordered
  rw [hids] at hordered
  refine ⟨first.1, hids ▸ List.mem_cons_self, lost_set_of_full hh.nodup hnew hentries hset, ?_⟩
  intro other hother hne
  rw [hids, List.mem_cons] at hother
  exact List.rel_of_pairwise_cons hordered (hother.resolve_left hne)

/-- Nothing is lost at a request that writes no new entry into a full store. -/
theorem IsFaithful.lost_of_not_full (hh : h.IsFaithful) {request : Request α}
    (hroom : ∀ id value, request = .set id value → id ∉ h.store.ids →
      h.store.ids.length < h.store.capacity) : h.store.lost request = [] := by
  cases request with
  | get id => exact (lost_get h.store id).1
  | contains id => exact (lost_get h.store id).2
  | delete id => exact lost_delete h.store id
  | set id value =>
    refine lost_set_of_room hh.nodup ?_ value
    by_contra hnone
    obtain ⟨hnew, hfull⟩ := hh.full_of_not_room hnone
    exact absurd (hroom id value rfl hnew) (by omega)

end History

/-- A miss changes nothing. -/
theorem eq_of_not_mem {s : Store α} {id : String} (h : id ∉ s.ids) :
    s.get id = (none, s) ∧ s.contains id = (false, s) ∧ s.delete id = (false, s) := by
  have hpeek : s.peek? id = none := by
    by_contra hsome
    exact h (mem_ids_iff.2 hsome)
  have hget := get_of_peek?_eq_none hpeek
  have hnone : s.entries.get? id = none := hpeek
  refine ⟨hget, ?_, ?_⟩
  · rw [contains, hget]
    rfl
  · rw [delete, Table.erase_of_get?_eq_none hnone, Table.has, hnone]
    rfl

/-- A store with room for one entry at least, after any requests. Its keys are distinct, no more
than it has room for, and in the order of their last uses. An entry that is asked for is what was
written last under its key, unless it was deleted or evicted since; what is not there is missed, and
nothing changes. A new entry in a full store evicts just the one whose last use is the oldest, and
no other request evicts any. The keys that were reported are those that were evicted, and with the
entries that are there and those that were deleted they make up the new ones. -/
theorem faithful_of_requests {capacity : Int} (hcapacity : 0 < capacity)
    (requests : List (Request α)) :
    ∃ s, make? α capacity = .ok s ∧ ∀ now, now = History.ofRequests s requests →
      (now.store.ids.Nodup ∧ (now.store.ids.length : Int) ≤ capacity ∧
        now.store.ids.Pairwise fun older newer =>
          lastUse now.log older < lastUse now.log newer) ∧
      (∀ id, (now.store.get id).1 = lastWritten now.log id ∧
        (now.store.contains id).1 = (lastWritten now.log id).isSome ∧
        (now.store.delete id).1 = (lastWritten now.log id).isSome) ∧
      (∀ id, id ∉ now.store.ids → now.store.get id = (none, now.store) ∧
        now.store.contains id = (false, now.store) ∧ now.store.delete id = (false, now.store)) ∧
      (∀ id value, id ∉ now.store.ids → now.store.ids.length = capacity →
        ∃ oldest ∈ now.store.ids, now.store.lost (.set id value) = [oldest] ∧
          ∀ other ∈ now.store.ids, other ≠ oldest →
            lastUse now.log oldest < lastUse now.log other) ∧
      (∀ request, (∀ id value, request = .set id value → id ∉ now.store.ids →
        now.store.ids.length < capacity) → now.store.lost request = []) ∧
      (∀ request, (now.store.after request).2 = now.store.lost request) ∧
      now.reported = now.log.reverse.filterMap Event.evicted? ∧
      now.log.countP Event.isInsertion
        = now.store.ids.length + now.log.countP Event.isDeletion + now.reported.length := by
  refine ⟨⟨capacity.toNat, [], by omega⟩, dif_pos hcapacity, ?_⟩
  rintro now rfl
  obtain ⟨hfaithful, hroom⟩ := (History.IsFaithful.start
    (s := (⟨capacity.toNat, [], by omega⟩ : Store α)) rfl).ofRequests requests
  have hroom : ((History.ofRequests (⟨capacity.toNat, [], by omega⟩ : Store α)
      requests).store.capacity : Int) = capacity := by
    rw [hroom]
    exact Int.toNat_of_nonneg (Int.le_of_lt hcapacity)
  generalize History.ofRequests (⟨capacity.toNat, [], by omega⟩ : Store α) requests = now at *
  have hread : ∀ id, (now.store.get id).1 = lastWritten now.log id := by
    intro id
    rw [fst_get, hfaithful.content]
  have hlength := hfaithful.length_le
  refine ⟨⟨hfaithful.nodup, by omega, hfaithful.ordered⟩, fun id => ⟨hread id, ?_, ?_⟩,
    fun id => eq_of_not_mem, fun id value hnew hfull => ?_, fun request hsmall => ?_,
    hfaithful.reports, hfaithful.reported, hfaithful.balance⟩
  · rw [← hread]
    rfl
  · rw [← hfaithful.content]
    rfl
  · exact hfaithful.lost_of_full hnew (by omega) value
  · refine hfaithful.lost_of_not_full fun id value hset hnew => ?_
    have hless := hsmall id value hset hnew
    omega

/-- Two entries in a full store, the older one read again. -/
def threeRequests : List (Request Nat) := [.set "a" 1, .set "b" 2, .get "a"]

/-- A third entry evicts the one that was not read. -/
theorem faithful_threeRequests : ∃ s, make? Nat 2 = .ok s ∧
    (History.ofRequests s threeRequests).store.ids = ["b", "a"] ∧
    (History.ofRequests s threeRequests).store.lost (.set "c" 3) = ["b"] := by
  have hcapacity : (0 : Int) < 2 := by decide
  obtain ⟨s, hs, hnow⟩ := faithful_of_requests hcapacity threeRequests
  obtain rfl : (⟨2, [], by decide⟩ : Store Nat) = s := Except.ok.inj hs
  obtain ⟨-, -, -, hevicts, -⟩ := hnow _ rfl
  obtain ⟨oldest, hmem, hlost, holdest⟩ := hevicts "c" 3 (by decide) (by decide)
  have hids : (History.ofRequests ⟨2, [], by decide⟩ threeRequests).store.ids = ["b", "a"] := by
    decide
  rw [hids, List.mem_cons, List.mem_singleton] at hmem
  refine ⟨_, rfl, hids, ?_⟩
  obtain rfl | rfl := hmem
  · exact hlost
  · exact absurd (holdest "b" (by rw [hids]; decide) (by decide)) (by decide)

end BlockDiagram.Store
