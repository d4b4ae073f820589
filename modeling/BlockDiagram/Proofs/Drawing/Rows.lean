import BlockDiagram.Proofs.Diagram.WellFormed
import BlockDiagram.Proofs.Digraph.Feedback
import BlockDiagram.Proofs.Drawing.Placing
import BlockDiagram.Proofs.Drawing.Independence
import BlockDiagram.Proofs.Layering.Ordering

/-!
# The rows of a drawing

The rows of boxes that a drawing is made of are the batches of the diagram's graph without cycles.
Their extents are bounded by the sizes of all nodes together.

* `Drawing.ids_boxes_eq_drawn`, `Drawing.ids_boxes`: the rows of an ordering are its nodes.
* `Diagram.Drawable`: what a diagram needs for a drawing.
* `Diagram.exists_rankedBy`: the acyclic graph that the ranks of a diagram come from.
* `Diagram.RankedBy.perm_ids_boxes`: the rows of a diagram are the batches of that graph.
* `Diagram.mem_flatten_drawn`: all nodes are drawn but those with names of placeholders.
* `Diagram.extents_of_load`: when the extents of the rows are not too large.
* `Diagram.WellFormed.drawable`: what a well-formed diagram needs for a drawing.
-/

namespace BlockDiagram

open BlockDiagram.Digraph (NoCycle)
open Outcome

/-! ## Rows of boxes -/

namespace Drawing

theorem id_ofNode (direction : Direction) (id : String) (node : Node) :
    (Box.ofNode direction id node).id = id := by
  unfold Box.ofNode
  split <;> rfl

theorem isExtent_ofNode {node : Node} (h : node.width.IsExtent ∧ node.height.IsExtent)
    (direction : Direction) (id : String) :
    (Box.ofNode direction id node).along.IsExtent ∧
      (Box.ofNode direction id node).across.IsExtent := by
  unfold Box.ofNode
  split
  · exact h
  · exact h.symm

theorem map_id_filterMap (d : Diagram) (direction : Direction) (names : List String) :
    (names.filterMap fun name => (d.nodes.get? name).map (Box.ofNode direction name)).map Box.id
      = names.filter d.hasNode := by
  induction names with
  | nil => rfl
  | cons name rest ih =>
    rw [List.filterMap_cons, List.filter_cons, Diagram.hasNode, Table.has]
    cases hnode : d.nodes.get? name with
    | none => exact ih
    | some node =>
      simp only [Option.map_some, List.map_cons, id_ofNode, ih]
      rfl

/-- The nodes on the ranks of an ordering, as far as something is left. -/
def drawn (d : Diagram) (ordering : List (List String)) : List (List String) :=
  (ordering.map fun rank => (rank.filter fun name => !Layering.isPlaceholder name).filter
    d.hasNode).filter fun rank => !rank.isEmpty

/-- In any direction, the rows of an ordering are its nodes. -/
theorem ids_boxes_eq_drawn (d : Diagram) (direction : Direction) (ordering : List (List String)) :
    ids (boxes d direction ordering) = drawn d ordering := by
  induction ordering with
  | nil => rfl
  | cons rank rest ih =>
    have hrank := map_id_filterMap d direction
      (rank.filter fun name => !Layering.isPlaceholder name)
    have hempty := congrArg List.isEmpty hrank
    rw [List.isEmpty_map] at hempty
    simp only [ids, boxes, drawn, List.map_cons, List.filter_cons, hempty] at ih ⊢
    split
    · rw [List.map_cons, hrank, ih]
    · exact ih

/-- The rows of an ordering of nodes and placeholders are its nodes. -/
theorem ids_boxes {d : Diagram} (direction : Direction) {ordering : List (List String)}
    (h : ∀ rank ∈ ordering, ∀ name ∈ rank, Layering.isPlaceholder name = false →
      d.hasNode name = true) :
    ids (boxes d direction ordering) = Layering.named ordering := by
  rw [ids_boxes_eq_drawn, drawn, Layering.named]
  congr 1
  refine List.map_congr_left fun rank hrank => List.filter_eq_self.2 fun name hname => ?_
  obtain ⟨hname, hplaceholder⟩ := List.mem_filter.1 hname
  exact h rank hrank name hname (by simpa using hplaceholder)

/-- Every name on an ordering that is a node's and no placeholder's is drawn. -/
theorem flatten_drawn (d : Diagram) (ordering : List (List String)) :
    (drawn d ordering).flatten
      = (ordering.flatten.filter fun name => !Layering.isPlaceholder name).filter d.hasNode := by
  rw [drawn, List.flatten_filter_not_isEmpty, List.filter_flatten, List.filter_flatten,
    List.map_map]
  rfl

theorem exists_node_of_mem_boxes {d : Diagram} {direction : Direction}
    {ordering : List (List String)} {row : List Box} (hrow : row ∈ boxes d direction ordering)
    {box : Box} (hbox : box ∈ row) :
    ∃ node, d.nodes.get? box.id = some node ∧ box = Box.ofNode direction box.id node := by
  obtain ⟨rank, -, rfl⟩ := List.mem_map.1 (List.mem_filter.1 hrow).1
  obtain ⟨name, -, hname⟩ := List.mem_filterMap.1 hbox
  obtain ⟨node, hnode, rfl⟩ := Option.map_eq_some_iff.1 hname
  rw [id_ofNode]
  exact ⟨node, hnode, rfl⟩

theorem isExtent_of_mem_boxes {d : Diagram} {direction : Direction}
    {ordering : List (List String)}
    (h : ∀ id node, d.nodes.get? id = some node → node.width.IsExtent ∧ node.height.IsExtent)
    {row : List Box} (hrow : row ∈ boxes d direction ordering) {box : Box} (hbox : box ∈ row) :
    box.along.IsExtent ∧ box.across.IsExtent := by
  obtain ⟨node, hnode, heq⟩ := exists_node_of_mem_boxes hrow hbox
  rw [heq]
  exact isExtent_ofNode (h box.id node hnode) direction box.id

theorem ne_nil_of_mem_boxes {d : Diagram} {direction : Direction}
    {ordering : List (List String)} {row : List Box} (hrow : row ∈ boxes d direction ordering) :
    row ≠ [] := by
  simpa using (List.mem_filter.1 hrow).2

end Drawing

/-! ## The graph of a diagram -/

namespace Diagram

/-- What a diagram needs for a drawing when its edges have an order: edges that join nodes, names
that are no placeholders, whole sizes, spacings and margins, and extents that are not too large. -/
structure Drawable (d : Diagram) (options : Options) : Prop where
  ends : ∀ e ∈ d.edges, d.isDangling e = false
  names : ∀ id ∈ d.nodes.keys, Layering.isPlaceholder id = false
  sizes : ∀ id node, d.nodes.get? id = some node →
    node.width.IsExtent ∧ node.height.IsExtent
  spacings : options.Measured
  extents : ∀ l, d.layering = .ok l →
    Drawing.depthOf options.rankSpacing.extent
        (Drawing.boxes d options.direction l.ordering) < extentLimit ∧
      Drawing.breadthOf options.nodeSpacing.extent
        (Drawing.boxes d options.direction l.ordering) < extentLimit

variable {d : Diagram} {options : Options}

theorem ends_of_mem_links (hends : ∀ e ∈ d.edges, d.isDangling e = false) {u v : String}
    (h : (u, v) ∈ d.links) : u ∈ d.nodes.keys ∧ v ∈ d.nodes.keys := by
  obtain ⟨-, edge, hedge, rfl, rfl⟩ := mem_links.1 h
  have hfound := hends edge hedge
  simp only [isDangling, Bool.or_eq_false_iff, Bool.not_eq_false'] at hfound
  rw [Table.mem_keys_iff, Table.mem_keys_iff]
  exact hfound

theorem hasEdgeOrder_of_layering {l : Layering} (h : d.layering = .ok l) : d.HasEdgeOrder := by
  obtain ⟨g, hdigraph, -⟩ := bind_eq_ok.1 h
  rw [digraph] at hdigraph
  cases horder : edgesById d.edges with
  | ok sorted => exact ⟨sorted, horder⟩
  | error fault =>
    rw [horder] at hdigraph
    cases hdigraph

theorem ends_of_layering {l : Layering} (h : d.layering = .ok l) :
    ∀ e ∈ d.edges, d.isDangling e = false := by
  obtain ⟨sorted, hsorted⟩ := hasEdgeOrder_of_layering h
  obtain ⟨g, hdigraph, -⟩ := bind_eq_ok.1 h
  rw [digraph, hsorted] at hdigraph
  intro e he
  cases hfind : sorted.find? d.isDangling with
  | none =>
    have hnot := List.find?_eq_none.1 hfind e ((Arrangement.perm_ofList hsorted).mem_iff.2 he)
    rwa [Bool.not_eq_true] at hnot
  | some edge =>
    simp only [pure_bind, hfind] at hdigraph
    cases hdigraph

/-- What an acyclic graph has in common with the diagram whose ranks come from it: its vertices are
the nodes, and it joins what edges join. Unless these pairs form a cycle they are its links. -/
structure RankedBy (d : Diagram) (g : Digraph) : Prop where
  layering : d.layering = .ok (Layering.proper g g.ranks)
  acyclic : g.isAcyclic = true
  nodes : ∀ v, v ∈ g.vertices ↔ v ∈ d.nodes.keys
  nodup : g.vertices.Nodup
  closed : g.IsClosed
  joined : ∀ u v, (u, v) ∈ d.links → (u, v) ∈ g.links ∨ (v, u) ∈ g.links
  links : NoCycle d.links → ∀ a, a ∈ g.links ↔ a ∈ d.links

theorem rankedBy_withoutCycles {g : Digraph} (hdigraph : d.digraph = .ok g)
    (hends : ∀ e ∈ d.edges, d.isDangling e = false)
    (hnodes : ∀ v, v ∈ g.vertices ↔ v ∈ d.nodes.keys) (hnodup : g.vertices.Nodup)
    (hlinks : ∀ a, a ∈ g.links ↔ a ∈ d.links) : d.RankedBy g.withoutCycles := by
  have hclosed : g.IsClosed := fun u v hlink => by
    rw [hnodes, hnodes]
    exact ends_of_mem_links hends ((hlinks _).1 hlink)
  have hloop : ∀ v, (v, v) ∉ g.links := fun v hlink => (mem_links.1 ((hlinks _).1 hlink)).1 rfl
  refine
    { layering := ?_
      acyclic := Digraph.isAcyclic_withoutCycles hclosed hloop
      nodes := fun v => Digraph.mem_vertices_withoutCycles.trans (hnodes v)
      nodup := Digraph.nodup_vertices_withoutCycles hnodup
      closed := Digraph.isClosed_withoutCycles hclosed
      joined := fun u v h => Digraph.joined_withoutCycles ((hlinks _).2 h)
      links := fun hcycle a => ?_ }
  · rw [layering, hdigraph]
    rfl
  · rw [Digraph.withoutCycles_of_noCycle (hcycle.congr fun a => (hlinks a).1)]
    exact hlinks a

theorem exists_rankedBy (horder : d.HasEdgeOrder) (hends : ∀ e ∈ d.edges, d.isDangling e = false) :
    ∃ g, d.RankedBy g := by
  obtain ⟨pairs, hdigraph, hpairs⟩ := exists_digraph horder hends
  refine ⟨_, rankedBy_withoutCycles hdigraph hends (fun v => Digraph.mem_vertices_ofLists)
    (Text.nodup_sortedNames d.nodes.keys) fun a => ?_⟩
  rw [Digraph.mem_links_ofLists, hpairs]

/-! ## Names -/

theorem not_isPlaceholder_nodeId (kind : Kind) (name type : Option String) :
    Layering.isPlaceholder (kind.nodeId name type) = false := by
  have hroot : ∃ c cs, kind.root.toList = c :: cs ∧ ('_' == c) = false := by
    cases kind <;> exact ⟨_, _, rfl, by decide⟩
  obtain ⟨c, cs, hcs, hc⟩ := hroot
  unfold Kind.nodeId
  split <;>
    simp [Layering.isPlaceholder, Layering.placeholderMark, hcs, hc, List.isPrefixOf_cons_cons]

theorem not_isPlaceholder_of_appendNode {d' : Diagram} {payload : Value}
    (h : d.appendNode payload = .ok d') {id : String} (hid : id ∈ d'.nodes.keys)
    (hnew : id ∉ d.nodes.keys) : Layering.isPlaceholder id = false := by
  obtain ⟨node, hnode, h⟩ := bind_eq_ok.1 h
  dsimp only at h
  split at h
  · cases h
  · cases h
    have hsame : id = node.id := by
      obtain ⟨⟨key, other⟩, hother, rfl⟩ := List.mem_map.1 hid
      rcases Table.mem_put hother with heq | hold
      · cases heq
        rfl
      · exact absurd (List.mem_map_of_mem hold) hnew
    rw [hsame, (wellFormed_of_node hnode).id_eq]
    exact not_isPlaceholder_nodeId _ _ _

theorem WellFormed.not_isPlaceholder (h : d.WellFormed) {id : String} (hid : id ∈ d.nodes.keys) :
    Layering.isPlaceholder id = false := by
  obtain ⟨⟨key, node⟩, hnode, rfl⟩ := List.mem_map.1 hid
  rw [← h.id_eq_key key node hnode, (h.node key node hnode).id_eq]
  exact not_isPlaceholder_nodeId _ _ _

/-! ## The rows of a diagram -/

/-- The rows of a diagram are the batches of the graph that ranks it. -/
theorem RankedBy.perm_ids_boxes {g : Digraph} (h : d.RankedBy g)
    (hnames : ∀ id ∈ d.nodes.keys, Layering.isPlaceholder id = false) (direction : Direction) :
    List.Forall₂ List.Perm
      (Drawing.ids (Drawing.boxes d direction (Layering.proper g g.ranks).ordering)) g.levels := by
  have hperm := Layering.perm_named_ordering h.acyclic h.nodup fun v hv =>
    hnames v ((h.nodes v).1 hv)
  rw [Drawing.ids_boxes]
  · exact hperm
  · intro rank hrank name hname hplaceholder
    have hnamed : name ∈ (Layering.named (Layering.proper g g.ranks).ordering).flatten := by
      have hfiltered : name ∈ rank.filter fun name => !Layering.isPlaceholder name :=
        List.mem_filter.2 ⟨hname, by simpa using hplaceholder⟩
      refine List.mem_flatten.2 ⟨_, List.mem_filter.2 ⟨List.mem_map_of_mem hrank, ?_⟩, hfiltered⟩
      simpa using List.ne_nil_of_mem hfiltered
    have hlevel := (Digraph.perm_flatten hperm).mem_iff.1 hnamed
    have hvertex := (Digraph.perm_flatten_levels h.acyclic).mem_iff.1 hlevel
    exact Table.mem_keys_iff.1 ((h.nodes name).1 hvertex)

/-! ## The nodes of a drawing -/

theorem nodup_flatten_drawn (d : Diagram) (l : Layering) :
    (Drawing.drawn d l.ordering).flatten.Nodup := by
  have hordering := (Layering.perm_flatten_ordering l).nodup_iff.2
    (Layering.nodup_flatten_byName l.ranks)
  rw [Drawing.flatten_drawn]
  exact (hordering.filter _).filter _

/-- Just the nodes whose names are no placeholders are drawn. -/
theorem mem_flatten_drawn {l : Layering} (hl : d.layering = .ok l) {id : String} :
    id ∈ (Drawing.drawn d l.ordering).flatten ↔
      id ∈ d.nodes.keys ∧ Layering.isPlaceholder id = false := by
  obtain ⟨g, hranked⟩ := exists_rankedBy (hasEdgeOrder_of_layering hl) (ends_of_layering hl)
  cases hl.symm.trans hranked.layering
  rw [Drawing.flatten_drawn, List.mem_filter, List.mem_filter,
    (Layering.perm_flatten_ordering _).mem_iff, Layering.mem_flatten_byName, Table.mem_keys_iff,
    Table.mem_keys_iff, Bool.not_eq_true']
  constructor
  · rintro ⟨⟨-, hplaceholder⟩, hnode⟩
    exact ⟨hnode, hplaceholder⟩
  · rintro ⟨hnode, hplaceholder⟩
    have hvertex : id ∈ g.vertices := (hranked.nodes id).2 (Table.mem_keys_iff.2 hnode)
    have hkey : id ∈ g.ranks.keys := by
      rw [Digraph.keys_ranks]
      exact (Digraph.perm_flatten_levels hranked.acyclic).mem_iff.2 hvertex
    refine ⟨⟨?_, hplaceholder⟩, hnode⟩
    rw [Table.has, Layering.get?_ranks_proper g g.ranks hplaceholder]
    exact Table.mem_keys_iff.1 hkey

/-! ## The load of a diagram -/

/-- The most that a node adds to an extent: its sizes and both spacings. -/
def loadOf (d : Diagram) (options : Options) (id : String) : Nat :=
  ((d.size? id).map fun size => size.1.extent + size.2.extent
    + options.nodeSpacing.extent + options.rankSpacing.extent).getD 0

/-- The loads of all nodes together. -/
def load (d : Diagram) (options : Options) : Nat := (d.nodes.keys.map (d.loadOf options)).sum

theorem le_load_of_mem_boxes {ordering : List (List String)} {row : List Box}
    (hrow : row ∈ Drawing.boxes d options.direction ordering) {box : Box} (hbox : box ∈ row) :
    box.along.extent + options.rankSpacing.extent ≤ d.loadOf options box.id ∧
      box.across.extent + options.nodeSpacing.extent ≤ d.loadOf options box.id := by
  obtain ⟨node, hnode, heq⟩ := Drawing.exists_node_of_mem_boxes hrow hbox
  rw [loadOf, size?, hnode, heq]
  unfold Box.ofNode
  simp only [Option.map_some, Option.getD_some]
  split <;> constructor <;> dsimp only <;> omega

/-- The loads of the boxes on all rows are those of all nodes. -/
theorem RankedBy.sum_load_boxes {g : Digraph} (h : d.RankedBy g)
    (hnames : ∀ id ∈ d.nodes.keys, Layering.isPlaceholder id = false) (hkeys : d.nodes.keys.Nodup)
    (options : Options) :
    ((Drawing.boxes d options.direction (Layering.proper g g.ranks).ordering).flatten.map
      fun box => d.loadOf options box.id).sum = d.load options := by
  have hbatches := Digraph.perm_flatten (h.perm_ids_boxes hnames options.direction)
  have hlevels := Digraph.perm_flatten_levels h.acyclic
  have hvertices := (List.perm_ext_iff_of_nodup h.nodup hkeys).2 h.nodes
  rw [Drawing.ids, ← List.map_flatten] at hbatches
  have hids := hbatches.trans (hlevels.trans hvertices)
  rw [load, ← (hids.map (d.loadOf options)).sum_eq, List.map_map]
  rfl

/-- Extents are bounded if the loads of all nodes together are. -/
theorem extents_of_load (hends : ∀ e ∈ d.edges, d.isDangling e = false)
    (hnames : ∀ id ∈ d.nodes.keys, Layering.isPlaceholder id = false)
    (hkeys : d.nodes.keys.Nodup) (hload : d.load options < extentLimit)
    (l : Layering) (hl : d.layering = .ok l) :
    Drawing.depthOf options.rankSpacing.extent
        (Drawing.boxes d options.direction l.ordering) < extentLimit ∧
      Drawing.breadthOf options.nodeSpacing.extent
        (Drawing.boxes d options.direction l.ordering) < extentLimit := by
  obtain ⟨g, hranked⟩ := exists_rankedBy (hasEdgeOrder_of_layering hl) hends
  rw [hranked.layering] at hl
  cases hl
  rw [← hranked.sum_load_boxes hnames hkeys options] at hload
  have hfilled : ∀ row ∈ Drawing.boxes d options.direction (Layering.proper g g.ranks).ordering,
      row ≠ [] := fun _ => Drawing.ne_nil_of_mem_boxes
  refine ⟨Nat.lt_of_le_of_lt (Drawing.depthOf_le_sum _ hfilled) (Nat.lt_of_le_of_lt ?_ hload),
    Nat.lt_of_le_of_lt (Drawing.breadthOf_le_sum _ hfilled) (Nat.lt_of_le_of_lt ?_ hload)⟩
  · refine List.sum_le_sum fun box hbox => ?_
    obtain ⟨row, hrow, hbox⟩ := List.mem_flatten.1 hbox
    exact (le_load_of_mem_boxes hrow hbox).1
  · refine List.sum_le_sum fun box hbox => ?_
    obtain ⟨row, hrow, hbox⟩ := List.mem_flatten.1 hbox
    exact (le_load_of_mem_boxes hrow hbox).2

theorem WellFormed.not_isDangling (h : d.WellFormed) : ∀ e ∈ d.edges, d.isDangling e = false := by
  intro e he
  simp [isDangling, h.source e he, h.target e he]

theorem WellFormed.hasEdgeOrder (h : d.WellFormed) : d.HasEdgeOrder :=
  HasTextIds.hasEdgeOrder h.edgeId_text

/-- A well-formed diagram of whole sizes that are not too large has all that it needs. -/
theorem WellFormed.drawable (h : d.WellFormed)
    (hsizes : ∀ id node, d.nodes.get? id = some node →
      node.width.IsExtent ∧ node.height.IsExtent)
    (hspacings : options.Measured) (hload : d.load options < extentLimit) :
    d.HasEdgeOrder ∧ d.Drawable options := by
  have hnames : ∀ id ∈ d.nodes.keys, Layering.isPlaceholder id = false :=
    fun _ => h.not_isPlaceholder
  exact ⟨h.hasEdgeOrder, h.not_isDangling, hnames, hsizes, hspacings,
    extents_of_load h.not_isDangling hnames h.keys_nodup hload⟩

end Diagram

end BlockDiagram
