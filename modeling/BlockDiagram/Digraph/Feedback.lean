import BlockDiagram.Digraph

/-!
# Taking cycles out

`greedyOrder` lines the vertices up so that few links point back: sinks go to the end, sources to
the start, and when neither is left the vertex with the largest surplus of outgoing links, the
first by name, goes to the start. `withoutCycles` turns the links that point back.
-/

namespace BlockDiagram.Digraph

/-- How many more links leave a vertex than enter it, among some vertices. -/
def surplus (g : Digraph) (among : List String) (v : String) : Int :=
  (g.outDegree among v : Int) - (g.inDegree among v : Int)

/-- The first vertex with the largest surplus. -/
def richest (g : Digraph) (among : List String) (first : String) (others : List String) : String :=
  others.foldl (fun best v => if g.surplus among best < g.surplus among v then v else best) first

theorem richest_mem (g : Digraph) (among : List String) (first : String) (others : List String) :
    g.richest among first others ∈ first :: others := by
  induction others generalizing first with
  | nil => simp [richest]
  | cons v others ih =>
    have h := ih (if g.surplus among first < g.surplus among v then v else first)
    simp only [richest, List.foldl_cons] at h ⊢
    rcases List.mem_cons.1 h with h | h
    · rw [h]
      split <;> simp
    · simp [h]

/-- The vertices lined up with few links pointing back. -/
def greedyOrder (g : Digraph) (rest : List String) : List String :=
  let sinks := peel g.isSink rest
  let sources := peel g.isSource sinks.2
  let inner := match _left : sources.2 with
    | [] => []
    | first :: others =>
      let best := g.richest (first :: others) first others
      best :: greedyOrder g ((first :: others).erase best)
  sources.1.flatten ++ inner ++ sinks.1.flatten.reverse
termination_by rest.length
decreasing_by
  have shorter := length_peel_le g.isSource (peel g.isSink rest).2
  have short := length_peel_le g.isSink rest
  have removed := List.length_erase_of_mem (g.richest_mem (first :: others) first others)
  simp only [sources, sinks] at _left
  rw [_left] at shorter
  rw [removed]
  simp only [List.length_cons] at shorter ⊢
  omega

theorem greedyOrder_of_nil {g : Digraph} {rest : List String}
    (h : (peel g.isSource (peel g.isSink rest).2).2 = []) :
    g.greedyOrder rest = (peel g.isSource (peel g.isSink rest).2).1.flatten
      ++ (peel g.isSink rest).1.flatten.reverse := by
  rw [greedyOrder]
  dsimp only
  split
  · simp
  · next heq => rw [h] at heq; cases heq

theorem greedyOrder_of_cons {g : Digraph} {rest : List String} {first : String}
    {others : List String}
    (h : (peel g.isSource (peel g.isSink rest).2).2 = first :: others) :
    g.greedyOrder rest = (peel g.isSource (peel g.isSink rest).2).1.flatten
      ++ g.richest (first :: others) first others
        :: g.greedyOrder ((first :: others).erase (g.richest (first :: others) first others))
      ++ (peel g.isSink rest).1.flatten.reverse := by
  rw [greedyOrder]
  dsimp only
  split
  · next heq => rw [h] at heq; cases heq
  · next heq =>
    rw [h] at heq
    cases heq
    rfl

/-- The graph with the links turned that point back in an order. -/
def turned (g : Digraph) (order : List String) : Digraph :=
  ofLists g.vertices (g.links.map fun arc =>
    if order.idxOf arc.2 < order.idxOf arc.1 then (arc.2, arc.1) else arc)

/-- The graph with links turned until there is no cycle; itself if it has none. -/
def withoutCycles (g : Digraph) : Digraph :=
  if g.isAcyclic then g else g.turned (g.greedyOrder g.vertices)

end BlockDiagram.Digraph
