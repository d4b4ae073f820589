import BlockDiagram.Proofs.Configuration.WellFormed
import BlockDiagram.Proofs.Drawing.Rows

/-!
# The ranks of a drawing

A diagram of whole sizes that are not too large has a drawing. It gives every node a rank and a
centre, uses all ranks from zero on, and never puts two joined nodes on one rank. If no connections
form a cycle, the rank of a node is the length of the longest path to it.

* `Diagram.RankedBy.drawing_eq`: the drawing of a drawable diagram.
* `Diagram.RankedBy.exists_drawing`: the ranks of a drawing are the numbers of batches.
* `Diagram.exists_drawing_ranks`: the drawing and its ranks.
-/

namespace BlockDiagram

open BlockDiagram.Digraph (InBatch NoCycle Path)
open Outcome

namespace Diagram

variable {d : Diagram} {options : Options}

/-- The rows of boxes that a diagram is drawn from. -/
def rowsOf (d : Diagram) (options : Options) (g : Digraph) : List (List Box) :=
  Drawing.boxes d options.direction (Layering.proper g g.ranks).ordering

theorem Drawable.measured {g : Digraph} (hdrawable : d.Drawable options) (h : d.RankedBy g) :
    Drawing.Measured options (d.rowsOf options g) := by
  obtain ⟨hdepth, hbreadth⟩ := hdrawable.extents _ h.layering
  exact ⟨hdrawable.spacings,
    fun row hrow box hbox => Drawing.isExtent_of_mem_boxes hdrawable.sizes hrow hbox,
    fun row hrow => Drawing.ne_nil_of_mem_boxes hrow, hdepth, hbreadth⟩

theorem RankedBy.drawing_eq {g : Digraph} (h : d.RankedBy g) (hdrawable : d.Drawable options) :
    d.drawing options = .ok (Drawing.ofRows options (d.rowsOf options g)) := by
  rw [Diagram.drawing, h.layering]
  simp only [bind, Except.bind, Drawing.ofOrdering_eq (hdrawable.measured h), rowsOf]

/-- A drawable diagram has a drawing, whose ranks are the numbers of the batches of the graph that
ranks it. -/
theorem RankedBy.exists_drawing {g : Digraph} (h : d.RankedBy g) (hdrawable : d.Drawable options) :
    ∃ drawing, d.drawing options = .ok drawing ∧ drawing.centres.keys = drawing.ranks.keys ∧
      drawing.ranks.keys.Perm g.vertices ∧
      ∀ id r, (id, r) ∈ drawing.ranks ↔ InBatch g.levels r id := by
  have hrows : List.Forall₂ List.Perm (Drawing.ids (d.rowsOf options g)) g.levels :=
    h.perm_ids_boxes hdrawable.names options.direction
  refine ⟨_, h.drawing_eq hdrawable, ?_, ?_, fun id r => ?_⟩
  · rw [Drawing.keys_centres_ofRows, Drawing.ranks_ofRows, Digraph.keys_numbered]
  · rw [Drawing.ranks_ofRows, Digraph.keys_numbered]
    exact (Digraph.perm_flatten hrows).trans (Digraph.perm_flatten_levels h.acyclic)
  · rw [Drawing.ranks_ofRows, Digraph.mem_numbered, Digraph.inBatch_congr hrows]

/-- A link leads to a higher rank. -/
theorem lt_of_mem_links {g : Digraph} {ranks : Table Nat} (hclosed : g.IsClosed)
    (hranks : ∀ id r, ranks.get? id = some r ↔ InBatch g.levels r id) {u v : String} {r s : Nat}
    (hlink : (u, v) ∈ g.links) (hu : ranks.get? u = some r) (hv : ranks.get? v = some s) :
    r < s := by
  obtain ⟨r', hlt, hu'⟩ := Digraph.exists_inBatch_lt ((hranks v s).1 hv) (hclosed u v hlink).1 hlink
  have hsame := hu.symm.trans ((hranks u r').2 hu')
  cases hsame
  exact hlt

/-- What the ranks and centres of a drawing are. Nodes have them and nothing else has, all ranks
from zero to the greatest one are used, and nodes that an edge joins have different ranks. If the
pairs that edges join form no cycle, the rank of a node is the length of a longest path to it, so
every pair leads to a higher rank. -/
structure IsRankedIn (d : Diagram) (drawing : Drawing) : Prop where
  rankKeys : drawing.ranks.keys.Nodup ∧ ∀ id, id ∈ drawing.ranks.keys ↔ id ∈ d.nodes.keys
  centreKeys : drawing.centres.keys.Nodup ∧ ∀ id, id ∈ drawing.centres.keys ↔ id ∈ d.nodes.keys
  used : ∀ id r, drawing.ranks.get? id = some r →
    ∀ s ≤ r, ∃ other, drawing.ranks.get? other = some s
  joined : ∀ u v, (u, v) ∈ d.links → drawing.ranks.get? u ≠ drawing.ranks.get? v
  longest : NoCycle d.links → ∀ id r, drawing.ranks.get? id = some r →
    (∃ u, Path d.links u id r) ∧ ∀ u n, Path d.links u id n → n ≤ r
  rising : NoCycle d.links → ∀ u v r s, (u, v) ∈ d.links → drawing.ranks.get? u = some r →
    drawing.ranks.get? v = some s → r < s

/-- The numbers of the batches of the graph that ranks a diagram are its ranks. -/
theorem RankedBy.isRankedIn {g : Digraph} {drawing : Drawing} (h : d.RankedBy g)
    (hends : ∀ e ∈ d.edges, d.isDangling e = false)
    (hcentres : drawing.centres.keys = drawing.ranks.keys)
    (hkeys : drawing.ranks.keys.Perm g.vertices)
    (hmem : ∀ id r, (id, r) ∈ drawing.ranks ↔ InBatch g.levels r id) : d.IsRankedIn drawing := by
  have hnodup : drawing.ranks.keys.Nodup := hkeys.nodup_iff.2 h.nodup
  have hnode : ∀ id, id ∈ drawing.ranks.keys ↔ id ∈ d.nodes.keys := fun id =>
    hkeys.mem_iff.trans (h.nodes id)
  have hranks : ∀ id r, drawing.ranks.get? id = some r ↔ InBatch g.levels r id :=
    fun id r => (Table.get?_eq_some_iff hnodup).trans (hmem id r)
  refine ⟨⟨hnodup, hnode⟩, ?_, ?_, ?_, ?_, ?_⟩
  · rw [hcentres]
    exact ⟨hnodup, hnode⟩
  · intro id r hr s hs
    obtain ⟨other, hother⟩ := Digraph.exists_inBatch_of_le
      (fun _ => Digraph.ne_nil_of_mem_peel) ((hranks id r).1 hr) hs
    exact ⟨other, (hranks other s).2 hother⟩
  · intro u v huv heq
    obtain ⟨r, hr⟩ := Option.isSome_iff_exists.1
      (Table.mem_keys_iff.1 ((hnode u).2 (ends_of_mem_links hends huv).1))
    rcases h.joined u v huv with hlink | hlink
    · exact Nat.lt_irrefl r (lt_of_mem_links h.closed hranks hlink hr (heq ▸ hr))
    · exact Nat.lt_irrefl r (lt_of_mem_links h.closed hranks hlink (heq ▸ hr) hr)
  · intro hcycle id r hr
    have hlinks := h.links hcycle
    refine ⟨?_, fun u n path => ?_⟩
    · obtain ⟨u, path⟩ := Digraph.exists_path_of_inBatch ((hranks id r).1 hr)
      exact ⟨u, path.mono fun a => (hlinks a).1⟩
    · exact Digraph.le_of_path h.closed (path.mono fun a => (hlinks a).2) ((hranks id r).1 hr)
  · intro hcycle u v r s huv
    exact lt_of_mem_links h.closed hranks ((h.links hcycle _).2 huv)

/-! ## Diagrams of variables -/

/-- Variables are drawable if edges join them, their names are no placeholders, and their load is
not too large. -/
theorem drawable_ofVariables {names : List String} {edges : List (String × String × String)}
    (hends : ∀ e ∈ (ofVariables names edges).edges,
      (ofVariables names edges).isDangling e = false)
    (hnames : ∀ id ∈ (ofVariables names edges).nodes.keys, Layering.isPlaceholder id = false)
    (hkeys : (ofVariables names edges).nodes.keys.Nodup)
    (hload : (ofVariables names edges).load .standard < extentLimit) :
    (ofVariables names edges).Drawable .standard := by
  refine ⟨hends, hnames, fun id node hnode => ?_, Options.measured_standard,
    extents_of_load hends hnames hkeys hload⟩
  obtain ⟨name, -, hname⟩ := List.mem_map.1 (Table.mem_of_get? hnode)
  cases hname
  exact ⟨Value.isExtent_int 150, Value.isExtent_int 60⟩

/-- Three variables on a cycle. -/
def roundabout : Diagram :=
  ofVariables ["a", "b", "c"]
    [("1", "var.a", "var.b"), ("2", "var.b", "var.c"), ("3", "var.c", "var.a")]

/-- Three variables in a row, with an edge past the second one and a loop. -/
def bypass : Diagram :=
  ofVariables ["a", "b", "c"]
    [("2", "var.a", "var.c"), ("1", "var.b", "var.c"), ("3", "var.a", "var.b"),
      ("4", "var.c", "var.c")]

theorem lt_of_mem_links_bypass {u v : String} (h : (u, v) ∈ bypass.links) :
    ["var.a", "var.b", "var.c"].idxOf u < ["var.a", "var.b", "var.c"].idxOf v := by
  have hall : ∀ a ∈ bypass.links,
      ["var.a", "var.b", "var.c"].idxOf a.1 < ["var.a", "var.b", "var.c"].idxOf a.2 := by
    decide +kernel
  exact hall (u, v) h

/-- The second variable puts the third one on rank two. -/
theorem IsRankedIn.get?_bypass {drawing : Drawing} (h : bypass.IsRankedIn drawing) :
    drawing.ranks.get? "var.c" = some 2 := by
  have hcycle : NoCycle bypass.links :=
    Digraph.noCycle_of_increasing fun _ _ => lt_of_mem_links_bypass
  obtain ⟨r, hr⟩ := Option.isSome_iff_exists.1
    (Table.mem_keys_iff.1 ((h.rankKeys.2 "var.c").2 (by decide +kernel)))
  obtain ⟨⟨u, path⟩, hlongest⟩ := h.longest hcycle "var.c" r hr
  have hle := path.add_length_le fun _ _ => lt_of_mem_links_bypass
  have hlast : ["var.a", "var.b", "var.c"].idxOf "var.c" = 2 := by decide
  have hfirst : ("var.a", "var.b") ∈ bypass.links := by decide +kernel
  have hsecond : ("var.b", "var.c") ∈ bypass.links := by decide +kernel
  have hge := hlongest "var.a" 2 (.go (.go (.stay "var.a") hfirst) hsecond)
  have htwo : r = 2 := by omega
  exact htwo ▸ hr

/-! ## Drawings -/

/-- A drawable diagram has a drawing that ranks its nodes. The names of nodes that a configuration
has, or that are added, are no placeholders. -/
theorem exists_drawing_ranks :
    (∀ (d : Diagram) (options : Options), d.HasTextIds → d.Drawable options →
      ∃ drawing, d.drawing options = .ok drawing ∧ d.IsRankedIn drawing) ∧
    (∀ (configuration : Value) (options : Options) (d : Diagram),
      Configuration.diagram configuration options = .ok d →
      ∀ id ∈ d.nodes.keys, Layering.isPlaceholder id = false) ∧
    ∀ (payload : Value) (d d' : Diagram), d.appendNode payload = .ok d' →
      ∀ id ∈ d'.nodes.keys, id ∉ d.nodes.keys → Layering.isPlaceholder id = false := by
  refine ⟨fun d options hids h => ?_, fun configuration options d h => ?_,
    fun payload d d' h id => not_isPlaceholder_of_appendNode h⟩
  · obtain ⟨g, hranked⟩ := exists_rankedBy hids.hasEdgeOrder h.ends
    obtain ⟨drawing, hdrawing, hcentres, hkeys, hmem⟩ := hranked.exists_drawing h
    exact ⟨drawing, hdrawing, hranked.isRankedIn h.ends hcentres hkeys hmem⟩
  · exact fun _ => (Configuration.wellFormed_diagram h).not_isPlaceholder

/-- On the cycle all ranks differ. Past the bypass the third variable still has rank two. The names
of configured and of added variables are no placeholders. -/
theorem exists_drawing_ranks_variables :
    (∃ drawing, roundabout.drawing .standard = .ok drawing ∧
      drawing.ranks.get? "var.a" ≠ drawing.ranks.get? "var.b" ∧
      drawing.ranks.get? "var.b" ≠ drawing.ranks.get? "var.c" ∧
      drawing.ranks.get? "var.c" ≠ drawing.ranks.get? "var.a") ∧
    (∃ drawing, bypass.drawing .standard = .ok drawing ∧
      drawing.ranks.get? "var.c" = some 2) ∧
    (∃ d, Configuration.diagram (.record [("variable", .record [("a", .record [])])]) .standard
        = .ok d ∧ "var.a" ∈ d.nodes.keys ∧ Layering.isPlaceholder "var.a" = false) ∧
    ∃ d, bypass.appendNode (.record [("kind", .text "variable"), ("name", .text "d")]) = .ok d ∧
      "var.d" ∈ d.nodes.keys ∧ Layering.isPlaceholder "var.d" = false := by
  refine ⟨?_, ?_, ?_, ?_⟩
  · have hdrawable : roundabout.Drawable .standard :=
      drawable_ofVariables (by decide +kernel) (by decide +kernel) (by decide +kernel)
        (by decide +kernel)
    obtain ⟨drawing, hdrawing, hranked⟩ :=
      exists_drawing_ranks.1 _ _ (hasTextIds_ofVariables _ _) hdrawable
    exact ⟨drawing, hdrawing, hranked.joined _ _ (by decide +kernel),
      hranked.joined _ _ (by decide +kernel), hranked.joined _ _ (by decide +kernel)⟩
  · have hdrawable : bypass.Drawable .standard :=
      drawable_ofVariables (by decide +kernel) (by decide +kernel) (by decide +kernel)
        (by decide +kernel)
    obtain ⟨drawing, hdrawing, hranked⟩ :=
      exists_drawing_ranks.1 _ _ (hasTextIds_ofVariables _ _) hdrawable
    exact ⟨drawing, hdrawing, hranked.get?_bypass⟩
  · obtain ⟨d, hd, hkeys⟩ := exists_eq_ok_of_map
      (show ((Configuration.diagram (.record [("variable", .record [("a", .record [])])])
        .standard).map fun d => d.nodes.keys).toOption = some ["var.a"] by decide +kernel)
    have hmem : "var.a" ∈ d.nodes.keys := by
      rw [hkeys]
      decide
    exact ⟨d, hd, hmem, exists_drawing_ranks.2.1 _ _ d hd "var.a" hmem⟩
  · obtain ⟨d, hd, hkeys⟩ := exists_eq_ok_of_map
      (show ((bypass.appendNode (.record [("kind", .text "variable"), ("name", .text "d")])).map
        fun d => d.nodes.keys).toOption = some ["var.a", "var.b", "var.c", "var.d"] by
          decide +kernel)
    have hmem : "var.d" ∈ d.nodes.keys := by
      rw [hkeys]
      decide
    exact ⟨d, hd, hmem,
      exists_drawing_ranks.2.2 _ bypass d hd "var.d" hmem (by decide +kernel)⟩

end Diagram

end BlockDiagram
