import BlockDiagram.Proofs.Configuration.Nodes
import BlockDiagram.Proofs.Configuration.WellFormed
import BlockDiagram.Proofs.Reference.Scan

/-!
# Every dependency and every reference becomes an edge of its own

The edges of a configuration's diagram are read off its nodes: for each node in order those of its
dependency list, then one for every place in its other attributes at which an interpolation starts,
provided that a candidate is the id of a node. Each edge has an id that no other edge has, so that
none takes the place of another one (`Diagram.putEdge_newEdge`).

* `dependencyReadings`, `referenceReadings`: the edges of one node.
* `nodes_edges_diagram`: the nodes and edges of a diagram.
-/

namespace BlockDiagram

/-- Source, target, type and label. -/
abbrev Reading := String × String × EdgeType × Value

def Edge.reading (e : Edge) : Reading := (e.source, e.target, e.type, e.label)

namespace Configuration

open Reference

/-- The items of a list; nothing else has any. -/
def itemsOf : Value → List Value
  | .list items => items
  | _ => []

/-- The fields of a record; nothing else has any. -/
def fieldsOf : Value → List (String × Value)
  | .record fields => fields
  | _ => []

/-- The last key on the path to a leaf, or the attribute's own if that is empty. -/
def labelAt (key : String) (path : List String) : String :=
  if path.getLastD key = "" then key else path.getLastD key

/-- The edges to a node from what its dependency list names. -/
def dependencyReadings (nodes : Table Node) (node : Node) : List Reading :=
  (itemsOf (node.config.field dependencyKey)).filterMap fun entry =>
    ((dependencyCandidates entry).find? nodes.has).map fun source =>
      (source, node.id, .dependsOn, .text dependencyKey)

/-- The edges to a node from what the interpolations in an attribute name. -/
def attributeReadings (nodes : Table Node) (node : Node) (key : String) (value : Value) :
    List Reading :=
  (leaves value).flatMap fun (path, s) => (occurrences s.toList).filterMap fun body =>
    ((candidates (String.ofList (Text.strip body))).find? nodes.has).map fun source =>
      (source, node.id, .reference, .text (labelAt key path))

/-- The edges to a node from what its attributes name, dependencies apart. -/
def referenceReadings (nodes : Table Node) (node : Node) : List Reading :=
  (fieldsOf node.config).flatMap fun (key, value) =>
    if key = dependencyKey then [] else attributeReadings nodes node key value

/-! ## Connections -/

def Connection.reading (c : Connection) : Reading := (c.source, c.target, c.type, .text c.label)

theorem reading_foldl_connect (d : Diagram) (cs : List Connection) :
    (cs.foldl Diagram.connect d).edges.map Edge.reading
      = d.edges.map Edge.reading ++ cs.map Connection.reading := by
  induction cs generalizing d with
  | nil => exact (List.append_nil _).symm
  | cons c cs ih =>
    have hedges : (d.connect c).edges.map Edge.reading
        = d.edges.map Edge.reading ++ [Connection.reading c] := List.map_append
    rw [List.foldl_cons, ih, hedges, List.append_assoc, List.map_cons, List.singleton_append]

theorem reading_dependencies (nodes : Table Node) (node : Node) :
    (dependencies nodes node).map Connection.reading = dependencyReadings nodes node := by
  rw [dependencies, dependencyReadings]
  cases node.config.field dependencyKey with
  | list entries =>
    rw [List.map_filterMap, itemsOf]
    congr 1
    funext entry
    exact Option.map_map _ _ _
  | _ => rfl

theorem reading_referencesIn (nodes : Table Node) (node : Node) (key : String) (value : Value) :
    (referencesIn nodes node key value).map Connection.reading
      = attributeReadings nodes node key value := by
  rw [referencesIn, scan_eq, attributeReadings, List.filterMap_flatMap, List.map_flatMap]
  congr 1
  funext leaf
  rw [occurrencesAt, List.filterMap_map, List.map_filterMap]
  congr 1
  funext body
  exact Option.map_map _ _ _

theorem reading_references (nodes : Table Node) (node : Node) :
    (references nodes node).map Connection.reading = referenceReadings nodes node := by
  rw [references, referenceReadings]
  cases node.config with
  | record fields =>
    rw [fieldsOf, List.map_flatMap]
    congr 1
    funext field
    obtain ⟨key, value⟩ := field
    dsimp only
    by_cases hkey : key = dependencyKey
    · rw [if_pos hkey, if_pos hkey, List.map_nil]
    · rw [if_neg hkey, if_neg hkey, reading_referencesIn]
  | _ => rfl

/-- Every block is a node, in order, and every dependency and interpolation that names a node is an
edge, in order. No edge has the id of another one. -/
theorem nodes_edges_diagram {configuration : Value} {options : Options} {d : Diagram}
    (hkeys : configuration.hasDistinctKeys = true)
    (hdots : ∀ b ∈ declared configuration, ∀ type ∈ b.type, '.' ∉ type.toList)
    (h : diagram configuration options = .ok d) :
    d.nodes = ((declared configuration).map fun b => (b.node.id, b.node)) ∧
      d.edges.map Edge.reading = (d.nodes.values.flatMap fun node =>
        dependencyReadings d.nodes node ++ referenceReadings d.nodes node) ∧
      (d.edges.map Edge.id).Nodup := by
  refine ⟨nodes_diagram hkeys hdots h, ?_, (wellFormed_diagram h).edgeIds_nodup⟩
  unfold diagram at h
  split at h
  · obtain ⟨found, -, h⟩ := Outcome.bind_eq_ok.1 h
    cases h
    rw [reading_foldl_connect, nodes_foldl_connect, connections, List.map_flatMap]
    simp only [List.map_append, reading_dependencies, reading_references]
    rfl
  · cases h

/-- A bucket that depends on a variable and refers to it four times, once under an empty key, and a
data source of the same type and name. -/
def parallel : Value :=
  .record [
    ("variable", .record [("v", .null)]),
    ("data", .record [("bucket", .record [("b.c", .record [])])]),
    ("resource", .record [("bucket", .record [("b.c", .record [
      ("name", .text "$\x7bvar.v\x7d-$\x7bvar.v\x7d-$\x7bvar.w\x7d"),
      ("tags", .record [
        ("", .list [.text "$\x7b var.v.id \x7d"]), ("tier", .text "$\x7bvar.v\x7d")]),
      ("depends_on", .list [.text "var.v", .text "module.m"])])])])]

theorem nodes_edges_diagram_parallel :
    ∃ d, diagram parallel .standard = .ok d ∧
      d.edges.map (fun e => (e.source, e.target, e.label.text?)) = [
        ("var.v", "resource.bucket.b.c", some "depends_on"),
        ("var.v", "resource.bucket.b.c", some "name"),
        ("var.v", "resource.bucket.b.c", some "name"),
        ("var.v", "resource.bucket.b.c", some "tags"),
        ("var.v", "resource.bucket.b.c", some "tier")] ∧
      d.nodes = ((declared parallel).map fun b => (b.node.id, b.node)) ∧
      d.edges.map Edge.reading = (d.nodes.values.flatMap fun node =>
        dependencyReadings d.nodes node ++ referenceReadings d.nodes node) ∧
      (d.edges.map Edge.id).Nodup := by
  refine (Outcome.exists_eq_ok_of_map
    (f := fun d : Diagram => d.edges.map fun e => (e.source, e.target, e.label.text?)) ?_).imp
      fun d ⟨hd, hedges⟩ => ⟨hd, hedges, nodes_edges_diagram ?_ ?_ hd⟩
  · decide +kernel
  · decide +kernel
  · decide +kernel

end Configuration

end BlockDiagram
