import BlockDiagram.Proofs.Diagram.Addressed
import BlockDiagram.Proofs.Service.Kept

/-!
# Edges of kept diagrams are addressed without ambiguity

The ids of edges stay made of their own ends along a run: edges come from connections and payloads
under the first id of their pair that is free, and no change touches an id. A pair may lose the edge
that had the pair for its id while numbered ones remain. The pair then reaches the only one that is
left, or is refused.

* `Configuration.hasOwnIds_diagram`: the edges of a configuration.
* `Service.hasOwnIds_of_change`: a change keeps ids made of their own ends.
* `Service.addressed_of_kept`: what every address reaches in a kept diagram.
-/

namespace BlockDiagram

open Outcome

/-! ## Configurations -/

namespace Configuration

theorem hasOwnIds_connect {d : Diagram} (hd : d.HasOwnIds) (cs : List Connection) :
    (cs.foldl Diagram.connect d).HasOwnIds := by
  induction cs generalizing d with
  | nil => exact hd
  | cons c cs ih => exact ih (hd.addEdge c.source c.target c.type _ _)

theorem hasOwnIds_diagram {configuration : Value} {options : Options} {d : Diagram}
    (h : diagram configuration options = .ok d) : d.HasOwnIds := by
  unfold diagram at h
  split at h
  · obtain ⟨found, -, h⟩ := bind_eq_ok.1 h
    cases h
    exact hasOwnIds_connect (fun e he => by cases he) _
  · cases h

end Configuration

namespace Service

variable {settings : Settings} {reply : Option Reply}

/-! ## Runs -/

theorem hasOwnIds_of_newDiagram {configuration layout : Value} {d : Diagram}
    (h : newDiagram settings configuration layout = .ok d) : d.HasOwnIds := by
  obtain ⟨standard, -, h⟩ := bind_eq_ok.1 h
  obtain ⟨options, -, h⟩ := bind_eq_ok.1 h
  obtain ⟨unplaced, hunplaced, h⟩ := bind_eq_ok.1 h
  exact (Configuration.hasOwnIds_diagram hunplaced).of_skeleton_eq (Diagram.skeleton_laidOut h)

theorem hasOwnIds_of_edit {c : Command} {edit : Diagram → Except Error Diagram}
    {old new : Diagram} (hedit : edit? settings c = some edit) (hold : old.WellFormed)
    (hown : old.HasOwnIds) (hnew : edit old = .ok new) : new.HasOwnIds :=
  edit_induction (fun hd h => hd.of_skeleton_eq h) (fun hd h => hd.appendNode h)
    (fun key hd => hd.removeNode key) (fun hd h => hd.appendEdge h)
    (fun edge hd => hd.removeEdge edge) hedit hold hown hnew

theorem hasOwnIds_of_change {c : Command} {change : Diagram → Except Error Diagram}
    {old new : Diagram} (hchange : change? settings reply c = some change)
    (hold : old.WellFormed) (hown : old.HasOwnIds) (hnew : change old = .ok new) :
    new.HasOwnIds := by
  rcases edit_or_relabelled hchange with hedit | ⟨answer, rfl⟩
  · exact hasOwnIds_of_edit hedit hold hown hnew
  · cases hnew
    exact hown.of_skeleton_eq (Diagram.skeleton_relabelled old answer)

theorem hasOwnIds_of_kept {s : Service} (hs : make? settings = .ok s)
    {steps : List (Settings × Option Reply × Step)} {id : String} {d : Diagram}
    (hd : (s.run steps).store.peek? id = some d) : d.WellFormed ∧ d.HasOwnIds := by
  refine kept_induction (P := fun d => d.WellFormed ∧ d.HasOwnIds) hs ?_ ?_ hd
  · intro chosen reply configuration layout d _ hnew
    exact ⟨wellFormed_of_newDiagram hnew, hasOwnIds_of_newDiagram hnew⟩
  · rintro chosen reply c change old new - hchange ⟨hwf, hown⟩ hnew
    exact ⟨wellFormed_of_change hchange hwf hnew, hasOwnIds_of_change hchange hwf hown hnew⟩

/-! ## Addresses -/

/-- In a kept diagram whose nodes have no colon in their ids, the id of an edge is its pair, or its
pair and a number from two on. An edge is reached by its id, and by its pair if it is the only one
that joins it, and by nothing else. The pair of two nodes is not found if and only if no edge joins
it, and refused if and only if several edges do and none of them has the pair for its id. -/
theorem addressed_of_kept {s : Service} (hs : make? settings = .ok s)
    (steps : List (Settings × Option Reply × Step)) {id : String} {d : Diagram}
    (hd : (s.run steps).store.peek? id = some d)
    (hcolon : ∀ key ∈ d.nodes.keys, ':' ∉ key.toList) :
    (∀ e ∈ d.edges, e.id = .text (e.source ++ ":" ++ e.target) ∨
      ∃ n, 2 ≤ n ∧ e.id = .text (e.source ++ ":" ++ e.target ++ ":" ++ Nat.repr n)) ∧
    (∀ e ∈ d.edges, d.resolve e.id = .ok e) ∧
    (∀ ref e, d.resolve ref = .ok e → e ∈ d.edges ∧ (ref = e.id ∨
      ref = .text (e.source ++ ":" ++ e.target) ∧ d.edgesBetween e.source e.target = [e])) ∧
    ∀ source target, d.hasNode source = true → d.hasNode target = true →
      ((∃ cause, d.resolve (.text (source ++ ":" ++ target)) = .error (.missing cause)) ↔
        d.edgesBetween source target = []) ∧
      ((∃ cause, d.resolve (.text (source ++ ":" ++ target)) = .error (.invalid cause)) ↔
        2 ≤ (d.edgesBetween source target).length ∧
          ∀ e ∈ d.edgesBetween source target, e.id ≠ .text (source ++ ":" ++ target)) := by
  obtain ⟨hwf, hown⟩ := hasOwnIds_of_kept hs hd
  refine ⟨?_, ?_, ?_, ?_⟩
  · intro e he
    exact Diagram.exists_eq_edgeIdAt_iff.1 (hown e he)
  · intro e he
    exact hwf.resolve_id he
  · intro ref e h
    exact hwf.of_resolve_eq_ok h
  intro source target hsource htarget
  have hsource := hcolon source (Table.mem_keys_iff.2 hsource)
  have htarget := hcolon target (Table.mem_keys_iff.2 htarget)
  have hcut := Diagram.splitAt_pair hsource htarget
  rcases hwf.resolve_pair hown hcolon hsource htarget with
    ⟨e, hjoins, hid, hresolve⟩ | ⟨hnone, hresolve⟩
  · -- An edge has the pair for its id, so the pair is neither missing nor ambiguous.
    have hne : d.edgesBetween source target ≠ [] := List.ne_nil_of_mem hjoins
    have hnot : ¬ ∀ e ∈ d.edgesBetween source target, e.id ≠ .text (source ++ ":" ++ target) :=
      fun h => h e hjoins hid
    simp [hresolve, hne, hnot]
  · rw [hresolve, Diagram.resolvePair, hcut]
    rcases hedges : d.edgesBetween source target with _ | ⟨first, _ | ⟨second, others⟩⟩
    · simp [hedges]
    · simp [hedges]
    · rw [hedges] at hnone
      exact ⟨by simp [hedges], fun _ => ⟨by simp, hnone⟩, fun _ => by simp [hedges]⟩

/-- The address of an edge between two variables. -/
def sharedAddress : Value := .text "var.region:var.zone"

/-- Two variables are joined three times, and the first of the edges is taken out. -/
def parallelRun : List (Settings × Option Reply × Step) :=
  [(.standard, none,
      .create "d" (.record [("variable", .record [("region", .record []), ("zone", .record [])])])
      (.record []))]
    ++ List.replicate 3 (.standard, none, .on "d" (.addEdge (.record [
      ("sourceId", .text "var.region"), ("targetId", .text "var.zone")])))
    ++ [(.standard, none, .on "d" (.deleteEdge sharedAddress))]

/-- The two edges that are left are numbered, so their pair is refused, and each has its address. -/
theorem addressed_of_parallelRun : ∃ s d, make? Settings.standard = .ok s ∧
    (s.run parallelRun).store.peek? "d" = some d ∧ d.edges.length = 2 ∧
    (∃ cause, d.resolve sharedAddress = .error (.invalid cause)) ∧
    ∀ e ∈ d.edges, d.resolve e.id = .ok e := by
  obtain ⟨s, hs⟩ : ∃ s, make? Settings.standard = .ok s := ⟨_, rfl⟩
  have hkept : ((s.run parallelRun).store.peek? "d").any (fun d =>
      d.nodes.keys == ["var.region", "var.zone"] && d.edges.length == 2
        && (d.edgesBetween "var.region" "var.zone").length == 2
        && d.edges.all fun e => !e.id.same sharedAddress) = true := by
    cases hs
    decide +kernel
  obtain ⟨d, hd, hkept⟩ := (Option.any_eq_true _ _).1 hkept
  simp only [Bool.and_eq_true, beq_iff_eq, List.all_eq_true, Bool.not_eq_true'] at hkept
  obtain ⟨⟨⟨hkeys, hlength⟩, hbetween⟩, hids⟩ := hkept
  have hcolon : ∀ key ∈ d.nodes.keys, ':' ∉ key.toList := by
    rw [hkeys]
    decide
  have hnode : ∀ key ∈ d.nodes.keys, d.hasNode key = true := fun key => Table.mem_keys_iff.1
  rw [hkeys] at hnode
  obtain ⟨-, hresolve, -, hpair⟩ := addressed_of_kept hs parallelRun hd hcolon
  refine ⟨s, d, hs, hd, hlength, ?_, hresolve⟩
  refine (hpair _ _ (hnode "var.region" (by decide)) (hnode "var.zone" (by decide))).2.2
    ⟨Nat.le_of_eq hbetween.symm, ?_⟩
  intro e he hid
  have hfree := hids e (List.mem_of_mem_filter he)
  rw [hid] at hfree
  cases hfree

end Service

end BlockDiagram
