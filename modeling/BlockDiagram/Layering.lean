import BlockDiagram.Digraph
import BlockDiagram.Table

/-!
# Layerings

In a layering every vertex has a rank. An arc that spans several ranks is replaced by a chain with
one placeholder on each rank between its ends; the chains of all long arcs are numbered, and so are
the placeholders of a chain.

* `Digraph.ranks`: the ranks of an acyclic graph by longest paths.
* `Layering.proper`: the layering in which every arc joins neighbouring ranks.
-/

namespace BlockDiagram

/-- The vertices of an acyclic graph with the lengths of the longest paths to them. They stand for
what a walk along a library's topological order finds, rank after rank from those of the
predecessors. -/
def Digraph.ranks (g : Digraph) : Table Nat :=
  g.levels.zipIdx.flatMap fun level => level.1.map fun v => (v, level.2)

/-- A graph whose vertices have ranks. -/
structure Layering where
  graph : Digraph
  ranks : Table Nat
deriving DecidableEq, Repr

namespace Layering

def rankOf (ranks : Table Nat) (v : String) : Nat := (ranks.get? v).getD 0

def placeholderMark : String := "__dummy_"

/-- The name of a placeholder: its chain and its place in the chain. -/
def placeholder (chain place : Nat) : String :=
  placeholderMark ++ Nat.repr chain ++ "_" ++ Nat.repr place

def isPlaceholder (name : String) : Bool := placeholderMark.toList.isPrefixOf name.toList

theorem isPlaceholder_placeholder (chain place : Nat) :
    isPlaceholder (placeholder chain place) = true := by
  simp [isPlaceholder, placeholder, String.append_assoc]

/-- An arc with the placeholders and their ranks that stand on it. -/
structure Chain where
  source : String
  target : String
  inner : List (String × Nat)
deriving DecidableEq, Repr

/-- The chains of arcs; only arcs over more than one rank take a number. -/
def chains (ranks : Table Nat) : Nat → List (String × String) → List Chain
  | _, [] => []
  | number, (source, target) :: rest =>
    let first := rankOf ranks source
    let span := rankOf ranks target - first
    if span ≤ 1 then ⟨source, target, []⟩ :: chains ranks number rest
    else
      let inner := (List.range (span - 1)).map fun i =>
        (placeholder number (i + 1), first + (i + 1))
      ⟨source, target, inner⟩ :: chains ranks (number + 1) rest

def pathArcs : List String → List (String × String)
  | v :: w :: rest => (v, w) :: pathArcs (w :: rest)
  | _ => []

def Chain.arcs (chain : Chain) : List (String × String) :=
  pathArcs (chain.source :: (chain.inner.map Prod.fst ++ [chain.target]))

/-- The layering of a graph with a placeholder wherever an arc passes a rank. -/
def proper (g : Digraph) (ranks : Table Nat) : Layering :=
  let parts := chains ranks 0 g.arcs
  let placeholders := parts.flatMap Chain.inner
  { graph := Digraph.ofLists (g.vertices ++ placeholders.map Prod.fst) (parts.flatMap Chain.arcs)
    ranks := placeholders.foldl (fun t entry => t.put entry.1 entry.2) ranks }

end Layering

end BlockDiagram
