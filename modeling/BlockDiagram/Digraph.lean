import BlockDiagram.Text.Order

/-!
# Directed graphs

A directed graph has vertices in order of name, and links in the order in which they were added,
each listed once. `Digraph.arcs` lists the links in order of their ends. `peel` takes off, again and
again, all vertices that have a property among those that are left.

* `Digraph.levels`: the batches of sources, whose numbers are the longest paths from a source.
* `Digraph.isAcyclic`: every vertex is in some batch.
-/

namespace BlockDiagram

/-- A directed graph on names. -/
structure Digraph where
  vertices : List String
  links : List (String × String)
deriving DecidableEq, Repr

namespace Digraph

/-- The graph with these vertices and these links, added one after another. -/
def ofLists (vertices : List String) (links : List (String × String)) : Digraph :=
  ⟨Text.sortedNames vertices, links.eraseDups⟩

/-- The links in order of their ends. -/
def arcs (g : Digraph) : List (String × String) := Text.sortedPairs g.links

@[simp] theorem mem_arcs {g : Digraph} {arc : String × String} : arc ∈ g.arcs ↔ arc ∈ g.links :=
  Text.mem_sortedPairs

@[simp] theorem mem_vertices_ofLists {vertices : List String} {links : List (String × String)}
    {v : String} : v ∈ (ofLists vertices links).vertices ↔ v ∈ vertices :=
  Text.mem_sortedNames

@[simp] theorem mem_links_ofLists {vertices : List String} {links : List (String × String)}
    {arc : String × String} : arc ∈ (ofLists vertices links).links ↔ arc ∈ links :=
  List.mem_eraseDups

/-- The heads of the links from a vertex. -/
def successors (g : Digraph) (v : String) : List String :=
  g.links.filterMap fun arc => if arc.1 = v then some arc.2 else none

/-- The tails of the links to a vertex. -/
def predecessors (g : Digraph) (v : String) : List String :=
  g.links.filterMap fun arc => if arc.2 = v then some arc.1 else none

@[simp] theorem mem_successors {g : Digraph} {v w : String} :
    w ∈ g.successors v ↔ (v, w) ∈ g.links := by
  simp only [successors, List.mem_filterMap]
  constructor
  · rintro ⟨⟨tail, head⟩, arc, h⟩
    split at h
    · next same =>
      rw [← Option.some.inj h, ← same]
      exact arc
    · exact absurd h (by simp)
  · intro arc
    exact ⟨(v, w), arc, if_pos rfl⟩

@[simp] theorem mem_predecessors {g : Digraph} {u v : String} :
    u ∈ g.predecessors v ↔ (u, v) ∈ g.links := by
  simp only [predecessors, List.mem_filterMap]
  constructor
  · rintro ⟨⟨tail, head⟩, arc, h⟩
    split at h
    · next same =>
      rw [← Option.some.inj h, ← same]
      exact arc
    · exact absurd h (by simp)
  · intro arc
    exact ⟨(u, v), arc, if_pos rfl⟩

/-- The number of links from a vertex to some of the others. -/
def outDegree (g : Digraph) (among : List String) (v : String) : Nat :=
  (g.successors v).countP among.contains

/-- The number of links to a vertex from some of the others. -/
def inDegree (g : Digraph) (among : List String) (v : String) : Nat :=
  (g.predecessors v).countP among.contains

/-- Whether no link leaves a vertex for the others. -/
def isSink (g : Digraph) (among : List String) (v : String) : Bool := g.outDegree among v == 0

/-- Whether no link enters a vertex from the others. -/
def isSource (g : Digraph) (among : List String) (v : String) : Bool := g.inDegree among v == 0

/-- The vertices that have a property among those left. -/
def picked (pick : List String → String → Bool) (rest : List String) : List String :=
  rest.filter (pick rest)

/-- The vertices without those that have a property among those left. -/
def unpicked (pick : List String → String → Bool) (rest : List String) : List String :=
  rest.filter fun v => !pick rest v

theorem length_picked_add_length_unpicked (pick : List String → String → Bool)
    (rest : List String) :
    (picked pick rest).length + (unpicked pick rest).length = rest.length := by
  simp only [picked, unpicked]
  generalize pick rest = p
  induction rest with
  | nil => rfl
  | cons v rest ih => by_cases h : p v <;> simp [h] <;> omega

theorem length_unpicked_lt {pick : List String → String → Bool} {rest : List String}
    (h : picked pick rest ≠ []) : (unpicked pick rest).length < rest.length := by
  have := length_picked_add_length_unpicked pick rest
  have := List.length_pos_iff.2 h
  omega

/-- The batches of vertices that have a property among those left, and what is left in the end. -/
def peel (pick : List String → String → Bool) (rest : List String) :
    List (List String) × List String :=
  if _h : picked pick rest = [] then ([], rest)
  else
    let (batches, left) := peel pick (unpicked pick rest)
    (picked pick rest :: batches, left)
termination_by rest.length
decreasing_by exact length_unpicked_lt _h

theorem length_peel_le (pick : List String → String → Bool) (rest : List String) :
    (peel pick rest).2.length ≤ rest.length := by
  fun_induction peel pick rest with
  | case1 => simp
  | case2 rest _ batches left eq ih =>
    rw [eq] at ih
    have := length_picked_add_length_unpicked pick rest
    simp only at ih ⊢
    omega

/-- The batches of sources: a vertex is in the batch whose number is the longest path to it. -/
def levels (g : Digraph) : List (List String) := (peel g.isSource g.vertices).1

/-- Whether the graph has no cycle: taking sources off leaves nothing. It stands for a library's
test of directed graphs. -/
def isAcyclic (g : Digraph) : Bool := (peel g.isSource g.vertices).2.isEmpty

end Digraph

end BlockDiagram
