import BlockDiagram.Diagram
import BlockDiagram.Text.Digits
import Mathlib.Data.List.Nodup

/-!
# Ids of new edges

The ids that are tried for a pair of nodes are all different, so among one more of them than there
are edges one is free. A search that nothing bounds, which tries them one after another, ends by
then at the id of the new edge.

* `edgeIdAt_inj`: the candidates of a pair differ from each other.
* `exists_freshEdgeId_eq`: the id of a new edge is the first candidate that is free.
* `putEdge_newEdge`: writing a new edge under its id adds it at the end.
* `edges_addEdges`: edges that are added one after another come behind those that were there.
* `freshEdgeId_found`: how the search for an id ends, and that no edge is lost.
-/

namespace BlockDiagram.Diagram

theorem edgeIdAt_inj {source target : String} {m n : Nat} :
    edgeIdAt source target m = edgeIdAt source target n ↔ m = n := by
  constructor
  · intro h
    have hchars := congrArg String.toList h
    cases m with
    | zero =>
      cases n with
      | zero => rfl
      | succ n =>
        have hlength := congrArg List.length hchars
        simp [edgeIdAt] at hlength
    | succ m =>
      cases n with
      | zero =>
        have hlength := congrArg List.length hchars
        simp [edgeIdAt] at hlength
      | succ n =>
        simp only [edgeIdAt, String.toList_append, List.append_cancel_left_eq] at hchars
        have hnumber := Text.repr_inj.1 (String.toList_inj.1 hchars)
        omega
  · rintro rfl
    rfl

theorem hasEdge_text_iff {d : Diagram} {id : String} :
    d.hasEdge (.text id) = true ↔ ∃ e ∈ d.edges, e.id = .text id := by
  simp only [hasEdge, List.any_eq_true, Value.same_text_iff]

theorem exists_free_edgeId (d : Diagram) (source target : String) :
    ∃ n ∈ List.range (d.edges.length + 1),
      d.hasEdge (.text (edgeIdAt source target n)) = false := by
  by_contra hnone
  -- otherwise the candidates are more ids than there are edges
  let candidates := (List.range (d.edges.length + 1)).map fun n =>
    Value.text (edgeIdAt source target n)
  have hnodup : candidates.Nodup := by
    refine List.nodup_range.map ?_
    intro m n h
    exact edgeIdAt_inj.1 (Value.text.inj h)
  have hsubset : candidates ⊆ d.edges.map Edge.id := by
    intro id hid
    obtain ⟨n, hn, rfl⟩ := List.mem_map.1 hid
    have htaken : d.hasEdge (.text (edgeIdAt source target n)) = true := by
      by_contra hfree
      exact hnone ⟨n, hn, Bool.eq_false_iff.2 hfree⟩
    obtain ⟨e, he, hid⟩ := hasEdge_text_iff.1 htaken
    exact List.mem_map.2 ⟨e, he, hid⟩
  have hlength := hnodup.length_le_of_subset hsubset
  simp only [candidates, List.length_map, List.length_range] at hlength
  omega

/-- Whether no edge has an id. -/
def IsFree (d : Diagram) (id : String) : Prop := ∀ e ∈ d.edges, e.id ≠ .text id

theorem hasEdge_text_eq_false_iff {d : Diagram} {id : String} :
    d.hasEdge (.text id) = false ↔ d.IsFree id := by
  rw [Bool.eq_false_iff, Ne, hasEdge_text_iff]
  simp only [not_exists, not_and, IsFree, ne_eq]

/-- The id of a new edge is the first candidate that no edge has. -/
theorem exists_freshEdgeId_eq (d : Diagram) (source target : String) :
    ∃ n ≤ d.edges.length, d.freshEdgeId source target = edgeIdAt source target n ∧
      d.IsFree (edgeIdAt source target n) ∧
      ∀ m < n, ¬ d.IsFree (edgeIdAt source target m) := by
  obtain ⟨free, hfree, hid⟩ := d.exists_free_edgeId source target
  have hsome : ((List.range (d.edges.length + 1)).find? fun n =>
      !d.hasEdge (.text (edgeIdAt source target n))).isSome := by
    rw [List.find?_isSome]
    exact ⟨free, hfree, by simp [hid]⟩
  obtain ⟨n, hn⟩ := Option.isSome_iff_exists.1 hsome
  obtain ⟨htest, hrange, hleast⟩ := List.find?_range_eq_some.1 hn
  simp only [Bool.not_eq_true', hasEdge_text_eq_false_iff, Bool.not_not] at htest hleast
  refine ⟨n, Nat.lt_succ_iff.1 (List.mem_range.1 hrange), ?_, htest, fun m hm hfree => ?_⟩
  · rw [freshEdgeId, hn, Option.getD_some]
  · have htaken := hleast m hm
    rw [hasEdge_text_eq_false_iff.2 hfree] at htaken
    cases htaken

/-- No edge has the id of a new edge. -/
theorem hasEdge_freshEdgeId (d : Diagram) (source target : String) :
    d.hasEdge (.text (d.freshEdgeId source target)) = false := by
  obtain ⟨n, -, hid, hfree, -⟩ := d.exists_freshEdgeId_eq source target
  rw [hid]
  exact hasEdge_text_eq_false_iff.2 hfree

/-- A new edge takes the place of no other one. -/
theorem putEdge_newEdge (d : Diagram) (source target : String) (type : EdgeType)
    (label verb : Value) :
    d.putEdge (d.newEdge source target type label verb)
      = d.addEdge source target type label verb := by
  have hfree : ¬ d.hasEdge (d.newEdge source target type label verb).id = true :=
    Bool.eq_false_iff.1 (d.hasEdge_freshEdgeId source target)
  rw [putEdge, if_neg hfree, addEdge]

/-! ## The search for an id -/

/-- The candidates of a pair tried one after another, from one of them on, until one is free: how
many are tried, and which one is found. Nothing bounds the search. -/
inductive Search (d : Diagram) (source target : String) : Nat → Nat → String → Prop
  | found {n : Nat} (hfree : d.IsFree (edgeIdAt source target n)) :
      Search d source target n 1 (edgeIdAt source target n)
  | next {n tests : Nat} {id : String} (htaken : ¬ d.IsFree (edgeIdAt source target n))
      (rest : Search d source target (n + 1) tests id) : Search d source target n (tests + 1) id

section

variable {d : Diagram} {source target : String}

/-- A search ends at the first candidate that is free. -/
theorem Search.exists_eq {n tests : Nat} {id : String} (h : Search d source target n tests id) :
    ∃ k, tests = k + 1 ∧ id = edgeIdAt source target (n + k) ∧
      d.IsFree (edgeIdAt source target (n + k)) ∧
      ∀ j < k, ¬ d.IsFree (edgeIdAt source target (n + j)) := by
  induction h with
  | found hfree => exact ⟨0, rfl, rfl, hfree, fun j hj => absurd hj (Nat.not_lt_zero j)⟩
  | @next n tests id htaken _ ih =>
    obtain ⟨k, htests, hid, hfree, hearlier⟩ := ih
    have hshift : ∀ j, n + 1 + j = n + (j + 1) := fun j => by omega
    simp only [hshift] at hid hfree hearlier
    refine ⟨k + 1, by rw [htests], hid, hfree, fun j hj => ?_⟩
    cases j with
    | zero => exact htaken
    | succ j => exact hearlier j (Nat.lt_of_succ_lt_succ hj)

/-- If a candidate is free and none before it is, the search finds it. -/
theorem search_of_first {n k : Nat} (hfree : d.IsFree (edgeIdAt source target (n + k)))
    (hearlier : ∀ j < k, ¬ d.IsFree (edgeIdAt source target (n + j))) :
    Search d source target n (k + 1) (edgeIdAt source target (n + k)) := by
  induction k generalizing n with
  | zero => exact .found hfree
  | succ k ih =>
    have hshift : ∀ j, n + 1 + j = n + (j + 1) := fun j => by omega
    refine .next (hearlier 0 (Nat.succ_pos k)) ?_
    rw [← hshift k] at hfree ⊢
    refine ih hfree fun j hj => ?_
    rw [hshift]
    exact hearlier (j + 1) (Nat.succ_lt_succ hj)

end

/-- The search from the first candidate ends in one way, at the id of a new edge, and no more
candidates are tried than there are edges, and one. -/
theorem exists_search_iff (d : Diagram) (source target : String) :
    ∃ most ≤ d.edges.length + 1, ∀ tests id, Search d source target 0 tests id ↔
      tests = most ∧ id = d.freshEdgeId source target := by
  obtain ⟨n, hle, hid, hfree, hearlier⟩ := d.exists_freshEdgeId_eq source target
  refine ⟨n + 1, Nat.succ_le_succ hle, fun tests id => ⟨fun h => ?_, ?_⟩⟩
  · obtain ⟨k, htests, hfound, hfree', hearlier'⟩ := h.exists_eq
    simp only [Nat.zero_add] at hfound hfree' hearlier'
    have hsame : k = n := by
      rcases Nat.lt_trichotomy k n with hlt | heq | hlt
      · exact absurd hfree' (hearlier k hlt)
      · exact heq
      · exact absurd hfree (hearlier' n hlt)
    rw [htests, hfound, hid, hsame]
    exact ⟨rfl, rfl⟩
  · rintro ⟨rfl, rfl⟩
    have hsearch := @search_of_first d source target 0 n (by rwa [Nat.zero_add]) fun j hj => by
      rw [Nat.zero_add]
      exact hearlier j hj
    rwa [Nat.zero_add, ← hid] at hsearch

/-! ## Adding edges -/

/-- The ends of an edge that is to be added, and what it carries. -/
structure NewEdge where
  source : String
  target : String
  type : EdgeType
  label : Value
  verb : Value

/-- The diagram with edges written one after another, each under a fresh id. -/
def addEdges (d : Diagram) (edges : List NewEdge) : Diagram :=
  edges.foldl (fun d e => d.putEdge (d.newEdge e.source e.target e.type e.label e.verb)) d

/-- Edges that are added come behind those that were there, in the order in which they are added. -/
theorem edges_addEdges (d : Diagram) (edges : List NewEdge) :
    ∃ added, (d.addEdges edges).edges = d.edges ++ added ∧
      added.map (fun e => (e.source, e.target)) = edges.map fun e => (e.source, e.target) := by
  induction edges generalizing d with
  | nil => exact ⟨[], (List.append_nil _).symm, rfl⟩
  | cons e rest ih =>
    obtain ⟨added, hedges, hends⟩ := ih (d.addEdge e.source e.target e.type e.label e.verb)
    refine ⟨d.newEdge e.source e.target e.type e.label e.verb :: added, ?_, ?_⟩
    · rw [addEdges, List.foldl_cons, putEdge_newEdge, ← addEdges, hedges, addEdge,
        List.append_assoc, List.singleton_append]
    · rw [List.map_cons, List.map_cons, hends]
      rfl

/-- The search for the id of a new edge ends, after no more tests than there are edges and one, and
always at the same id, which no edge has: that of the pair if it is free, and otherwise the pair
with the least number from two on with which it is. So a new edge is written in no other edge's
place, and each of some new edges is one edge more. -/
theorem freshEdgeId_found (d : Diagram) (source target : String) :
    (∃ most ≤ d.edges.length + 1, ∀ tests id, Search d source target 0 tests id ↔
      tests = most ∧ id = d.freshEdgeId source target) ∧
    d.IsFree (d.freshEdgeId source target) ∧
    ((d.IsFree (source ++ ":" ++ target) ∧ d.freshEdgeId source target = source ++ ":" ++ target) ∨
      (¬ d.IsFree (source ++ ":" ++ target) ∧ ∃ n ≥ 2,
        d.freshEdgeId source target = source ++ ":" ++ target ++ ":" ++ Nat.repr n ∧
        d.IsFree (source ++ ":" ++ target ++ ":" ++ Nat.repr n) ∧
        ∀ m ≥ 2, m < n → ¬ d.IsFree (source ++ ":" ++ target ++ ":" ++ Nat.repr m))) ∧
    (∀ type label verb, (d.putEdge (d.newEdge source target type label verb)).edges
      = d.edges ++ [d.newEdge source target type label verb]) ∧
    ∀ edges, (d.addEdges edges).edges.length = d.edges.length + edges.length := by
  refine ⟨d.exists_search_iff source target, ?_, ?_, fun type label verb => ?_, fun edges => ?_⟩
  · exact hasEdge_text_eq_false_iff.1 (d.hasEdge_freshEdgeId source target)
  · obtain ⟨n, -, hid, hfree, hearlier⟩ := d.exists_freshEdgeId_eq source target
    cases n with
    | zero => exact .inl ⟨hfree, hid⟩
    | succ n =>
      refine .inr ⟨hearlier 0 (Nat.succ_pos n), n + 2, Nat.le_add_left 2 n, hid, hfree, ?_⟩
      intro m hm hlt
      obtain ⟨m, rfl⟩ := Nat.exists_eq_add_of_le' hm
      exact hearlier (m + 1) (by omega)
  · rw [putEdge_newEdge, addEdge]
  · obtain ⟨added, hedges, hends⟩ := d.edges_addEdges edges
    have hlength := congrArg List.length hends
    rw [List.length_map, List.length_map] at hlength
    rw [hedges, List.length_append, hlength]

/-- The id of another pair is a candidate of this one. -/
theorem freshEdgeId_found_occupied :
    let d := empty.addEdges [⟨"a:b", "2", .reference, .null, .null⟩,
      ⟨"a", "b", .reference, .null, .null⟩]
    d.freshEdgeId "a" "b" = "a:b:3" ∧ d.IsFree "a:b:3" ∧
      (d.addEdges [⟨"a", "b", .reference, .null, .null⟩]).edges.length = 3 := by
  intro d
  have hid : d.freshEdgeId "a" "b" = "a:b:3" := by decide +kernel
  obtain ⟨-, hfree, -, -, hlength⟩ := freshEdgeId_found d "a" "b"
  exact ⟨hid, hid ▸ hfree, hlength [⟨"a", "b", .reference, .null, .null⟩]⟩

end BlockDiagram.Diagram
