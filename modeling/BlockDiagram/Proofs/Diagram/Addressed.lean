import BlockDiagram.Proofs.Diagram.Validity
import BlockDiagram.Text.Split

/-!
# Addresses of edges

An edge is addressed by its id or by the pair that it joins. Its id is made of its own pair, and of
a number where the pair alone was taken. So where no node has a colon in its id, an id is never the
address of another pair, and a pair is the id of no edge but its own.

* `Diagram.HasOwnIds`: the ids of edges are made of their own ends.
* `HasOwnIds.of_identities`, `HasOwnIds.addEdge`: changes keep them so.
* `WellFormed.of_resolve_eq_ok`: what reaches an edge.
* `WellFormed.resolve_pair`: what comes of the address of a pair.
-/

namespace BlockDiagram

open Outcome

namespace Diagram

variable {d d' : Diagram}

/-! ## Ids made of ends -/

/-- Every edge has one of the ids that are tried for its own ends. -/
def HasOwnIds (d : Diagram) : Prop :=
  ∀ e ∈ d.edges, ∃ n, e.id = .text (edgeIdAt e.source e.target n)

/-- The ids that are tried for a pair: the pair, and the pair with a number from two on. -/
theorem exists_eq_edgeIdAt_iff {id : Value} {source target : String} :
    (∃ n, id = .text (edgeIdAt source target n)) ↔
      id = .text (source ++ ":" ++ target) ∨
        ∃ n, 2 ≤ n ∧ id = .text (source ++ ":" ++ target ++ ":" ++ Nat.repr n) := by
  constructor
  · rintro ⟨n, rfl⟩
    cases n with
    | zero => exact .inl rfl
    | succ n => exact .inr ⟨n + 2, by omega, rfl⟩
  · rintro (rfl | ⟨n, hn, rfl⟩)
    · exact ⟨0, rfl⟩
    · obtain ⟨m, rfl⟩ := Nat.exists_eq_add_of_le' hn
      exact ⟨m + 1, rfl⟩

/-- Edges that have the ids and the ends of edges that were there before keep their own ids. -/
theorem HasOwnIds.of_identities (hd : d.HasOwnIds)
    (h : ∀ e ∈ d'.edges, ∃ old ∈ d.edges, old.identity = e.identity) : d'.HasOwnIds := by
  intro e he
  obtain ⟨old, hold, hidentity⟩ := h e he
  obtain ⟨n, hn⟩ := hd old hold
  simp only [Edge.identity, Prod.mk.injEq] at hidentity
  obtain ⟨hid, hsource, htarget⟩ := hidentity
  exact ⟨n, by rw [← hid, hn, hsource, htarget]⟩

theorem HasOwnIds.of_skeleton_eq (hd : d.HasOwnIds) (h : d'.skeleton = d.skeleton) :
    d'.HasOwnIds :=
  hd.of_identities fun _ he => exists_edge_of_skeleton_eq h he

theorem HasOwnIds.of_subset (hd : d.HasOwnIds) (h : d'.edges ⊆ d.edges) : d'.HasOwnIds :=
  hd.of_identities fun e he => ⟨e, h he, rfl⟩

theorem HasOwnIds.appendNode {payload : Value} (hd : d.HasOwnIds)
    (h : d.appendNode payload = .ok d') : d'.HasOwnIds := by
  obtain ⟨node, -, h⟩ := bind_eq_ok.1 h
  dsimp only at h
  split at h
  · cases h
  · cases h
    exact hd.of_subset (List.Subset.refl _)

theorem HasOwnIds.addEdge (hd : d.HasOwnIds) (source target : String) (type : EdgeType)
    (label verb : Value) : (d.addEdge source target type label verb).HasOwnIds := by
  intro e he
  rcases List.mem_append.1 he with he | he
  · exact hd e he
  · rw [List.mem_singleton.1 he]
    exact ⟨_, rfl⟩

theorem HasOwnIds.appendEdge {payload : Value} (hd : d.HasOwnIds)
    (h : d.appendEdge payload = .ok d') : d'.HasOwnIds := by
  obtain ⟨p, -, h⟩ := bind_eq_ok.1 h
  obtain ⟨source, -, h⟩ := bind_eq_ok.1 h
  obtain ⟨target, -, h⟩ := bind_eq_ok.1 h
  obtain ⟨-, -, h⟩ := bind_eq_ok.1 h
  obtain ⟨-, -, h⟩ := bind_eq_ok.1 h
  obtain ⟨type, -, h⟩ := bind_eq_ok.1 h
  cases h
  exact hd.addEdge source target type _ _

theorem HasOwnIds.removeNode (hd : d.HasOwnIds) (key : String) : (d.removeNode key).HasOwnIds :=
  hd.of_subset fun _ he => List.mem_of_mem_filter he

theorem HasOwnIds.removeEdge (hd : d.HasOwnIds) (edge : Edge) : (d.removeEdge edge).HasOwnIds :=
  hd.of_subset fun _ he => List.mem_of_mem_filter he

/-! ## Ids and pairs -/

/-- Between names without a colon the first colon of an id ends the source. So an id that is a pair
is the first id of just that pair. -/
theorem edgeIdAt_eq_pair {s t source target : String} {n : Nat} (hs : ':' ∉ s.toList)
    (hsource : ':' ∉ source.toList) (htarget : ':' ∉ target.toList)
    (h : edgeIdAt s t n = source ++ ":" ++ target) : s = source ∧ t = target := by
  have hchars := congrArg String.toList h
  cases n with
  | zero =>
    have hsplit : s.toList ++ ':' :: t.toList = source.toList ++ ':' :: target.toList := by
      simpa [edgeIdAt] using hchars
    obtain ⟨hfront, hback⟩ := Text.append_mark_inj hs hsource hsplit
    exact ⟨String.toList_inj.1 hfront, String.toList_inj.1 hback⟩
  | succ n =>
    have hsplit : s.toList ++ ':' :: (t.toList ++ ':' :: (Nat.repr (n + 2)).toList)
        = source.toList ++ ':' :: target.toList := by
      simpa [edgeIdAt] using hchars
    obtain ⟨-, hback⟩ := Text.append_mark_inj hs hsource hsplit
    exact absurd (hback ▸ List.mem_append_right _ List.mem_cons_self) htarget

theorem splitAt_pair {source target : String} (hsource : ':' ∉ source.toList)
    (htarget : ':' ∉ target.toList) :
    Text.splitAt ':' (source ++ ":" ++ target) = [source, target] := by
  have hpieces : ∀ piece ∈ [source, target], ':' ∉ piece.toList := by
    intro piece hpiece
    rcases List.mem_pair.1 hpiece with rfl | rfl
    · exact hsource
    · exact htarget
  have hjoined : Text.join (String.singleton ':') [source, target] = source ++ ":" ++ target := rfl
  rw [← hjoined]
  exact Text.splitAt_join (List.cons_ne_nil _ _) hpieces

/-! ## What an address reaches -/

theorem WellFormed.edge?_eq_some_iff (hd : d.WellFormed) {ref : Value} {e : Edge} :
    d.edge? ref = some e ↔ e ∈ d.edges ∧ ref = e.id := by
  constructor
  · intro h
    have he := List.mem_of_find?_eq_some h
    obtain ⟨s, hs⟩ := hd.edgeId_text e he
    have hsame := List.find?_some h
    rw [hs, Value.text_same_iff] at hsame
    exact ⟨he, hsame.trans hs.symm⟩
  · rintro ⟨he, rfl⟩
    exact hd.edge?_id he

theorem WellFormed.resolve_id (hd : d.WellFormed) {e : Edge} (he : e ∈ d.edges) :
    d.resolve e.id = .ok e := by
  simp only [resolve, hd.edge?_id he]

/-- An edge is reached by its id, or by its pair if no other edge joins it. -/
theorem WellFormed.of_resolve_eq_ok (hd : d.WellFormed) {ref : Value} {e : Edge}
    (h : d.resolve ref = .ok e) : e ∈ d.edges ∧ (ref = e.id ∨
      ref = .text (e.source ++ ":" ++ e.target) ∧ d.edgesBetween e.source e.target = [e]) := by
  refine ⟨mem_edges_of_resolve h, ?_⟩
  unfold resolve at h
  split at h
  · next found hfound =>
    cases h
    exact .inl (hd.edge?_eq_some_iff.1 hfound).2
  · split at h
    · next s _ =>
      unfold resolvePair at h
      split at h
      · next source target hcut =>
        have hs : s = source ++ ":" ++ target := by
          rw [← Text.join_splitAt ':' s, hcut]
          rfl
        split at h
        · cases h
        · next edge hsingle =>
          cases h
          have hjoins : e ∈ d.edgesBetween source target := hsingle ▸ List.mem_singleton_self e
          have hends := (List.mem_filter.1 hjoins).2
          simp only [Edge.joins, Bool.and_eq_true, beq_iff_eq] at hends
          obtain ⟨rfl, rfl⟩ := hends
          exact .inr ⟨congrArg Value.text hs, hsingle⟩
        · cases h
      · cases h
    · cases h

/-- The address of a pair of names without colons. If an edge has the pair for its id, it joins the
pair and is reached; otherwise it counts how many edges join the pair. -/
theorem WellFormed.resolve_pair (hd : d.WellFormed) (hown : d.HasOwnIds)
    (hcolon : ∀ key ∈ d.nodes.keys, ':' ∉ key.toList) {source target : String}
    (hsource : ':' ∉ source.toList) (htarget : ':' ∉ target.toList) :
    (∃ e ∈ d.edgesBetween source target, e.id = .text (source ++ ":" ++ target) ∧
      d.resolve (.text (source ++ ":" ++ target)) = .ok e) ∨
    (∀ e ∈ d.edgesBetween source target, e.id ≠ .text (source ++ ":" ++ target)) ∧
      d.resolve (.text (source ++ ":" ++ target)) = d.resolvePair (source ++ ":" ++ target) := by
  cases hfound : d.edge? (.text (source ++ ":" ++ target)) with
  | some e =>
    left
    obtain ⟨he, hid⟩ := hd.edge?_eq_some_iff.1 hfound
    obtain ⟨n, hn⟩ := hown e he
    have hpair : edgeIdAt e.source e.target n = source ++ ":" ++ target :=
      Value.text.inj (hn.symm.trans hid.symm)
    have hends := edgeIdAt_eq_pair (hcolon _ (Table.mem_keys_iff.2 (hd.source e he))) hsource
      htarget hpair
    have hjoins : e.joins source target = true := by
      rw [Edge.joins, hends.1, hends.2, beq_self_eq_true, beq_self_eq_true, Bool.and_self]
    exact ⟨e, List.mem_filter.2 ⟨he, hjoins⟩, hid.symm, by simp only [resolve, hfound]⟩
  | none =>
    right
    constructor
    · intro e he hid
      have hsome := hd.edge?_eq_some_iff.2 ⟨List.mem_of_mem_filter he, hid.symm⟩
      rw [hfound] at hsome
      cases hsome
    · simp only [resolve, hfound]

end Diagram

end BlockDiagram
