import BlockDiagram.Arrangement.Lemmas
import BlockDiagram.Outcome
import BlockDiagram.Proofs.Diagram.Complete
import BlockDiagram.Proofs.Digraph.Alike
import BlockDiagram.Service

/-!
# What a drawing depends on

A drawing depends on nothing but the sizes of the nodes, the pairs of different nodes that an edge
joins, and the options. In particular it does not depend on the coordinates that a diagram has, so
laying out anew what was laid out changes nothing.

* `Diagram.drawing_eq_of_drawnAlike`: diagrams that agree on sizes and pairs are drawn alike.
* `Diagram.refreshed_of_laidOut`: laying out is idempotent.
* `Service.refreshed_of_edit`: what an edit leaves behind is laid out.
-/

namespace BlockDiagram

open Outcome

namespace Diagram

/-! ## The graph of a diagram -/

/-- The pairs of different nodes that an edge joins, from source to target. -/
def links (d : Diagram) : List (String × String) :=
  (d.edges.filter fun edge => edge.source != edge.target).map fun edge => (edge.source, edge.target)

theorem mem_links {d : Diagram} {u v : String} :
    (u, v) ∈ d.links ↔ u ≠ v ∧ ∃ edge ∈ d.edges, edge.source = u ∧ edge.target = v := by
  simp only [links, List.mem_map, List.mem_filter, bne_iff_ne, Prod.mk.injEq]
  constructor
  · rintro ⟨edge, ⟨hedge, hne⟩, rfl, rfl⟩
    exact ⟨hne, edge, hedge, rfl, rfl⟩
  · rintro ⟨hne, edge, hedge, rfl, rfl⟩
    exact ⟨edge, ⟨hedge, hne⟩, rfl, rfl⟩

/-- Whether the edges of a diagram can be put in order of their ids. -/
def HasEdgeOrder (d : Diagram) : Prop := ∃ sorted, edgesById d.edges = .ok sorted

/-- Edges can be put in order if any two of their ids can be compared. -/
theorem hasEdgeOrder_of_lessThan {d : Diagram}
    (h : ∀ e ∈ d.edges, ∀ f ∈ d.edges, ∃ b, e.id.lessThan f.id = .ok b) : d.HasEdgeOrder :=
  Arrangement.exists_ofList h

/-- Whether the ids of all edges are texts, as they are wherever diagrams are built, read or
changed. -/
def HasTextIds (d : Diagram) : Prop := ∀ edge ∈ d.edges, ∃ s, edge.id = .text s

theorem HasTextIds.hasEdgeOrder {d : Diagram} (h : d.HasTextIds) : d.HasEdgeOrder := by
  refine hasEdgeOrder_of_lessThan fun e he f hf => ?_
  obtain ⟨s, hs⟩ := h e he
  obtain ⟨t, ht⟩ := h f hf
  rw [hs, ht]
  exact ⟨_, rfl⟩

/-- The graph of a diagram without dangling edges has its nodes as vertices and its pairs as
links. -/
theorem exists_digraph {d : Diagram} (horder : d.HasEdgeOrder)
    (hends : ∀ e ∈ d.edges, d.isDangling e = false) :
    ∃ pairs, d.digraph = .ok (Digraph.ofLists d.nodes.keys pairs) ∧
      ∀ pair, pair ∈ pairs ↔ pair ∈ d.links := by
  obtain ⟨sorted, hsorted⟩ := horder
  have hperm : sorted.Perm d.edges := Arrangement.perm_ofList hsorted
  have hfind : sorted.find? d.isDangling = none := by
    refine List.find?_eq_none.2 fun e he => ?_
    rw [hends e (hperm.mem_iff.1 he)]
    simp
  refine ⟨_, ?_, fun pair => ((hperm.filter _).map _).mem_iff⟩
  simp only [digraph, hsorted, pure_bind, hfind]
  rfl

theorem digraph_congr {d d' : Diagram} (hkeys : d.nodes.keys = d'.nodes.keys)
    (hedges : d.edges = d'.edges) : d.digraph = d'.digraph := by
  have hdangling : d.isDangling = d'.isDangling := by
    have hhas : ∀ id, d.hasNode id = d'.hasNode id := fun id => by
      rw [Bool.eq_iff_iff]
      simp only [hasNode, ← Table.mem_keys_iff, hkeys]
    funext edge
    rw [isDangling, isDangling, hhas, hhas]
  rw [digraph, digraph, hkeys, hedges, hdangling]

/-! ## Drawings -/

/-- The width and height of the node under an id. -/
def size? (d : Diagram) (id : String) : Option (Value × Value) :=
  (d.nodes.get? id).map fun node => (node.width, node.height)

/-- Diagrams that have nodes of the same sizes under the same ids and join the same pairs of
different nodes. -/
structure DrawnAlike (d d' : Diagram) : Prop where
  sizes : ∀ id, d.size? id = d'.size? id
  links : ∀ pair, pair ∈ d.links ↔ pair ∈ d'.links

theorem boxes_congr {d d' : Diagram}
    (hsizes : ∀ id, d.size? id = d'.size? id)
    (direction : Direction) (ordering : List (List String)) :
    Drawing.boxes d direction ordering = Drawing.boxes d' direction ordering := by
  have hbox : ∀ name, (d.nodes.get? name).map (Box.ofNode direction name)
      = (d'.nodes.get? name).map (Box.ofNode direction name) := fun name => by
    have hof : Box.ofNode direction name
        = (fun size : Value × Value => if direction.isHorizontal then
            (⟨name, size.1, size.2⟩ : Box) else ⟨name, size.2, size.1⟩)
          ∘ fun node => (node.width, node.height) := rfl
    rw [hof, ← Option.map_map, ← Option.map_map]
    exact congrArg _ (hsizes name)
  simp only [Drawing.boxes, hbox]

theorem ofOrdering_congr {d d' : Diagram}
    (hsizes : ∀ id, d.size? id = d'.size? id)
    (options : Options) (ordering : List (List String)) :
    Drawing.ofOrdering d options ordering = Drawing.ofOrdering d' options ordering := by
  simp only [Drawing.ofOrdering, boxes_congr hsizes]

theorem drawing_congr {d d' : Diagram} (hlayering : d.layering = d'.layering)
    (hsizes : ∀ id, d.size? id = d'.size? id)
    (options : Options) : d.drawing options = d'.drawing options := by
  simp only [drawing, hlayering, ofOrdering_congr hsizes]

theorem mem_keys_iff_of_sizes {d d' : Diagram} (h : d.DrawnAlike d') (id : String) :
    id ∈ d.nodes.keys ↔ id ∈ d'.nodes.keys := by
  have hsome := congrArg Option.isSome (h.sizes id)
  simp only [size?, Option.isSome_map] at hsome
  rw [Table.mem_keys_iff, Table.mem_keys_iff, Table.has, Table.has, hsome]

theorem drawing_eq_of_drawnAlike {d d' : Diagram} (h : d.DrawnAlike d')
    (horder : d.HasEdgeOrder) (horder' : d'.HasEdgeOrder)
    (hends : ∀ e ∈ d.edges, d.isDangling e = false)
    (hends' : ∀ e ∈ d'.edges, d'.isDangling e = false) (options : Options) :
    d.drawing options = d'.drawing options := by
  obtain ⟨pairs, hdigraph, hpairs⟩ := exists_digraph horder hends
  obtain ⟨pairs', hdigraph', hpairs'⟩ := exists_digraph horder' hends'
  have halike : (Digraph.ofLists d.nodes.keys pairs).Alike
      (Digraph.ofLists d'.nodes.keys pairs') :=
    Digraph.alike_ofLists (mem_keys_iff_of_sizes h) fun pair => by
      rw [hpairs, hpairs', h.links]
  refine drawing_congr ?_ h.sizes options
  simp only [layering, hdigraph, hdigraph', bind, Except.bind]
  rw [halike.withoutCycles.ranks_eq, halike.withoutCycles.proper_eq]

/-! ## Laying out anew -/

theorem moved_moved (centres : Table (Int × Int)) (id : String) (node : Node) :
    moved centres id (moved centres id node) = moved centres id node := by
  unfold moved
  split <;> rfl

theorem size_moved (centres : Table (Int × Int)) (id : String) (node : Node) :
    ((moved centres id node).width, (moved centres id node).height)
      = (node.width, node.height) := by
  unfold moved
  split <;> rfl

theorem size?_placed (d : Diagram) (options : Options) (drawing : Drawing) (id : String) :
    (d.placed options drawing).size? id = d.size? id := by
  rw [size?, size?, placed, Table.get?_map, Option.map_map]
  congr 1
  funext node
  exact size_moved drawing.centres id node

/-- The drawing of a diagram does not depend on where its nodes are. -/
theorem drawing_placed (d : Diagram) (options : Options) (drawing : Drawing) (other : Options) :
    (d.placed options drawing).drawing other = d.drawing other := by
  have hkeys : (d.placed options drawing).nodes.keys = d.nodes.keys := Table.keys_map _ d.nodes
  refine drawing_congr ?_ (size?_placed d options drawing) other
  rw [layering, layering, digraph_congr hkeys rfl]

theorem placed_placed (d : Diagram) (options : Options) (drawing : Drawing) :
    (d.placed options drawing).placed options drawing = d.placed options drawing := by
  simp only [placed, List.map_map, Function.comp_def, moved_moved]

/-- What was laid out is not changed by laying it out again. -/
theorem refreshed_of_laidOut {d d' : Diagram} {options : Options}
    (h : d.laidOut options = .ok d') : d'.refreshed = .ok d' := by
  unfold laidOut at h
  split at h
  · next drawing hdrawing =>
    cases h
    have hagain : (d.placed options drawing).drawing options = .ok drawing := by
      rw [drawing_placed, hdrawing]
    have hoptions : (d.placed options drawing).options = options := rfl
    rw [refreshed, hoptions, laidOut, hagain]
    exact congrArg Except.ok (placed_placed d options drawing)
  · cases h

end Diagram

/-! ## Edits -/

/-- Whether a command moves a node by hand, so that nothing is laid out: its patch holds a
coordinate, or the settings say so. -/
def Command.MovesByHand (settings : Settings) : Command → Prop
  | .updateNode _ patch => settings.relayout = false ∨
      ∃ p, Payload.ofValue Payload.nodeSpellings patch = .ok p ∧ (p.has "x" ∨ p.has "y")
  | _ => False

namespace Service

variable {settings : Settings}

theorem refreshed_of_withNodeChanged {old new : Diagram} {node patch : Value}
    (hmoves : ¬ (Command.updateNode node patch).MovesByHand settings)
    (h : old.withNodeChanged node patch settings.relayout = .ok new) :
    new.refreshed = .ok new := by
  obtain ⟨⟨key, node⟩, -, h⟩ := bind_eq_ok.1 h
  obtain ⟨changes, hchanges, h⟩ := bind_eq_ok.1 h
  obtain ⟨⟨p, hp, rfl⟩, -⟩ := Diagram.checked_of_nodePatch hchanges
  have hhas : ∀ axis, axis ≠ "id" → axis ≠ "kind" → axis ≠ "type" →
      Table.has (((p.erase "id").erase "kind").erase "type") axis = true → p.has axis = true := by
    intro axis hid hkind htype haxis
    simpa [Table.has_erase, hid, hkind, htype] using haxis
  simp only [Command.MovesByHand, not_or, not_exists, not_and] at hmoves
  obtain ⟨hrelayout, hcoordinates⟩ := hmoves
  split at h
  · next hleft =>
    simp only [Bool.or_eq_true, Bool.not_eq_eq_eq_not, Bool.not_true] at hleft
    rcases hleft with (hx | hy) | hoff
    · exact absurd (hhas "x" (by decide) (by decide) (by decide) hx) (hcoordinates p hp).1
    · exact absurd (hhas "y" (by decide) (by decide) (by decide) hy) (hcoordinates p hp).2
    · exact absurd hoff hrelayout
  · exact Diagram.refreshed_of_laidOut h

/-- What an edit leaves behind is laid out, unless it moved a node by hand. -/
theorem refreshed_of_edit {c : Command} {edit : Diagram → Except Error Diagram}
    {old new : Diagram} (hedit : edit? settings c = some edit)
    (hmoves : ¬ c.MovesByHand settings) (hnew : edit old = .ok new) :
    new.refreshed = .ok new := by
  cases c with
  | updateLayout options =>
    cases hedit
    obtain ⟨chosen, -, hnew⟩ := bind_eq_ok.1 hnew
    exact Diagram.refreshed_of_laidOut hnew
  | addNode payload =>
    cases hedit
    obtain ⟨changed, -, hnew⟩ := bind_eq_ok.1 hnew
    exact Diagram.refreshed_of_laidOut hnew
  | updateNode node patch =>
    cases hedit
    exact refreshed_of_withNodeChanged hmoves hnew
  | deleteNode node =>
    cases hedit
    obtain ⟨⟨key, node⟩, -, hnew⟩ := bind_eq_ok.1 hnew
    exact Diagram.refreshed_of_laidOut hnew
  | addEdge payload =>
    cases hedit
    obtain ⟨changed, -, hnew⟩ := bind_eq_ok.1 hnew
    exact Diagram.refreshed_of_laidOut hnew
  | updateEdge ref patch =>
    cases hedit
    obtain ⟨edge, -, hnew⟩ := bind_eq_ok.1 hnew
    obtain ⟨changed, -, hnew⟩ := bind_eq_ok.1 hnew
    exact Diagram.refreshed_of_laidOut hnew
  | deleteEdge ref =>
    cases hedit
    obtain ⟨edge, -, hnew⟩ := bind_eq_ok.1 hnew
    exact Diagram.refreshed_of_laidOut hnew
  | get => cases hedit
  | delete => cases hedit
  | enhance => cases hedit
  | generateCode withHeader => cases hedit

theorem refreshed_of_newDiagram {configuration layout : Value} {d : Diagram}
    (h : newDiagram settings configuration layout = .ok d) : d.refreshed = .ok d := by
  obtain ⟨standard, -, h⟩ := bind_eq_ok.1 h
  obtain ⟨options, -, h⟩ := bind_eq_ok.1 h
  obtain ⟨unplaced, -, h⟩ := bind_eq_ok.1 h
  exact Diagram.refreshed_of_laidOut h

end Service

/-! ## Independence -/

namespace Diagram

/-- Two diagrams without dangling edges are drawn alike, or fail alike, if they agree on the sizes
of their nodes and on the pairs of different nodes that they join. Laying out is idempotent, and new
and edited diagrams are laid out. -/
theorem drawing_independent :
    (∀ (d d' : Diagram) (options : Options), d.DrawnAlike d' → d.HasTextIds → d'.HasTextIds →
      (∀ e ∈ d.edges, d.isDangling e = false) → (∀ e ∈ d'.edges, d'.isDangling e = false) →
      d.drawing options = d'.drawing options) ∧
    (∀ (d d' : Diagram) (options : Options), d.laidOut options = .ok d' →
      d'.refreshed = .ok d') ∧
    (∀ (settings : Settings) (c : Command) (edit : Diagram → Except Error Diagram)
      (old new : Diagram), Service.edit? settings c = some edit → ¬ c.MovesByHand settings →
      edit old = .ok new → new.refreshed = .ok new) ∧
    ∀ (settings : Settings) (configuration layout : Value) (d : Diagram),
      Service.newDiagram settings configuration layout = .ok d → d.refreshed = .ok d := by
  refine ⟨?_, ?_, ?_, ?_⟩
  · intro d d' options halike hids hids' hends hends'
    exact drawing_eq_of_drawnAlike halike hids.hasEdgeOrder hids'.hasEdgeOrder hends hends' options
  · intro d d' options h
    exact refreshed_of_laidOut h
  · intro settings c edit old new hedit hmoves hnew
    exact Service.refreshed_of_edit hedit hmoves hnew
  · intro settings configuration layout d h
    exact Service.refreshed_of_newDiagram h

/-- Variables of some names, and edges with ids between them. -/
def ofVariables (names : List String) (edges : List (String × String × String)) : Diagram :=
  { empty with
    nodes := names.map fun name =>
      let node := Configuration.node .inputVariable none name (.record [])
      (node.id, node)
    edges := edges.map fun (id, source, target) =>
      ⟨id, source, target, .reference, .text "", .null⟩ }

theorem hasTextIds_ofVariables (names : List String) (edges : List (String × String × String)) :
    (ofVariables names edges).HasTextIds := by
  intro edge hedge
  obtain ⟨⟨id, source, target⟩, -, rfl⟩ := List.mem_map.1 hedge
  exact ⟨id, rfl⟩

/-- The order of two nodes, the ids of edges, a parallel edge and a loop do not count. -/
theorem drawing_independent_variables :
    (ofVariables ["a", "b"] [("2", "var.a", "var.b"), ("1", "var.a", "var.b"),
        ("3", "var.b", "var.b")]).drawing .standard
      = (ofVariables ["b", "a"] [("x", "var.a", "var.b")]).drawing .standard ∧
    (∃ d, (ofVariables ["a"] []).laidOut .standard = .ok d ∧ d.refreshed = .ok d) ∧
    (∃ edit d, Service.edit? .standard (.updateLayout (.record [])) = some edit ∧
      edit (ofVariables ["a"] []) = .ok d ∧ d.refreshed = .ok d) ∧
    ∃ d, Service.newDiagram .standard (.record []) (.record []) = .ok d ∧
      d.refreshed = .ok d := by
  refine ⟨?_, ?_, ?_, ?_⟩
  · refine drawing_independent.1 _ _ .standard ⟨fun id => ?_, fun pair => ?_⟩
      (hasTextIds_ofVariables _ _) (hasTextIds_ofVariables _ _) (by decide +kernel)
      (by decide +kernel)
    · have ha : (Configuration.node .inputVariable none "a" (.record [])).id = "var.a" := by
        decide +kernel
      have hb : (Configuration.node .inputVariable none "b" (.record [])).id = "var.b" := by
        decide +kernel
      simp only [size?, ofVariables, List.map_cons, List.map_nil, Table.get?_cons, ha, hb]
      by_cases h : "var.a" = id
      · subst h
        simp
      · simp [h]
    · have hlinks : (ofVariables ["a", "b"] [("2", "var.a", "var.b"),
          ("1", "var.a", "var.b"), ("3", "var.b", "var.b")]).links
          = [("var.a", "var.b"), ("var.a", "var.b")] := by
        decide +kernel
      have hlinks' : (ofVariables ["b", "a"] [("x", "var.a", "var.b")]).links
          = [("var.a", "var.b")] := by
        decide +kernel
      simp [hlinks, hlinks']
  · obtain ⟨d, hd⟩ := exists_eq_ok_of_isOk
      (show ((ofVariables ["a"] []).laidOut .standard).isOk = true by decide +kernel)
    exact ⟨d, hd, drawing_independent.2.1 _ d .standard hd⟩
  · obtain ⟨d, hd⟩ := exists_eq_ok_of_isOk
      (show ((ofVariables ["a"] []).withOptions (.record [])).isOk = true by decide +kernel)
    have hfixed := drawing_independent.2.2.1 .standard (.updateLayout (.record []))
      (fun old => old.withOptions (.record [])) (ofVariables ["a"] []) d rfl id hd
    exact ⟨_, d, rfl, hd, hfixed⟩
  · obtain ⟨d, hd⟩ := exists_eq_ok_of_isOk
      (show (Service.newDiagram .standard (.record []) (.record [])).isOk = true by decide +kernel)
    exact ⟨d, hd, drawing_independent.2.2.2 .standard _ _ d hd⟩

end Diagram

end BlockDiagram
