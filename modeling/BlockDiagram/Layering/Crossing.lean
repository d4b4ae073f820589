import BlockDiagram.Binary64
import BlockDiagram.Layering

/-!
# Crossings

An ordering lists the vertices of every rank. Two arcs between the same neighbouring ranks cross
when their ends lie in strictly opposite order. `Layering.ordering` starts with the ranks in name
order and sweeps over them, sorting each rank by the mean position of its neighbours on the rank
before, down and up again, as long as that takes crossings away.
-/

namespace BlockDiagram.Layering

/-! ## Counting -/

/-- The arcs between two ranks, as the positions of their ends. -/
def segments (g : Digraph) (upper lower : List String) : List (Nat × Nat) :=
  g.links.filterMap fun arc =>
    if upper.contains arc.1 && lower.contains arc.2 then
      some (upper.idxOf arc.1, lower.idxOf arc.2)
    else none

/-- Whether two arcs between the same ranks cross. -/
def crosses (a b : Nat × Nat) : Bool :=
  (decide (a.1 < b.1) && decide (b.2 < a.2)) || (decide (b.1 < a.1) && decide (a.2 < b.2))

/-- The number of pairs of arcs that cross. -/
def crossingPairs : List (Nat × Nat) → Nat
  | [] => 0
  | a :: rest => rest.countP (crosses a) + crossingPairs rest

def crossings (g : Digraph) : List (List String) → Nat
  | upper :: lower :: rest =>
    crossingPairs (segments g upper lower) + crossings g (lower :: rest)
  | _ => 0

/-! ## Sweeping -/

/-- The mean position of the neighbours that are on a rank, in floating point; without any, the
given position. -/
def barycenter (neighbours rank : List String) (position : Nat) : Binary64 :=
  let placed := (neighbours.filter rank.contains).map rank.idxOf
  .ofRat (if placed.isEmpty then (position : Rat)
    else mkRat (placed.foldl (· + ·) 0 : Nat) placed.length)

/-- A rank sorted by the barycenters of its vertices on a fixed rank; equal ones keep their
order. -/
def sortRank (neighbours : String → List String) (fixed rank : List String) : List String :=
  let keyed := rank.zipIdx.map fun entry =>
    (barycenter (neighbours entry.1) fixed entry.2, entry.1)
  (sorted (fun a b => !b.1.lt a.1) keyed).map Prod.snd

/-- The ranks after a fixed one, each sorted by the one before it. -/
def sweepFrom (neighbours : String → List String) :
    List String → List (List String) → List (List String)
  | _, [] => []
  | fixed, rank :: rest =>
    let sorted := sortRank neighbours fixed rank
    sorted :: sweepFrom neighbours sorted rest

/-- All ranks, each but the first sorted by the one before it. -/
def sweep (neighbours : String → List String) : List (List String) → List (List String)
  | [] => []
  | first :: rest => first :: sweepFrom neighbours first rest

/-- One sweep down by predecessors and one up by successors. -/
def sweepBoth (g : Digraph) (ordering : List (List String)) : List (List String) :=
  (sweep g.successors (sweep g.predecessors ordering).reverse).reverse

/-- Sweeps as long as they take crossings away, and no more than the given number. -/
def improve (g : Digraph) : Nat → List (List String) → List (List String)
  | 0, ordering => ordering
  | sweeps + 1, ordering =>
    if crossings g ordering = 0 then ordering
    else
      let next := sweepBoth g ordering
      if crossings g next < crossings g ordering then improve g sweeps next else ordering

def maxSweeps : Nat := 24

/-- The ranks, each in name order. -/
def byName (ranks : Table Nat) : List (List String) :=
  let count := ranks.foldl (fun n entry => max n (entry.2 + 1)) 0
  let names := Text.sortedNames ranks.keys
  (List.range count).map fun r => names.filter fun v => rankOf ranks v == r

/-- The ranks, ordered for few crossings. -/
def ordering (l : Layering) : List (List String) := improve l.graph maxSweeps (byName l.ranks)

end BlockDiagram.Layering
