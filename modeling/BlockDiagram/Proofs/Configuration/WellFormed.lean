import BlockDiagram.Configuration
import BlockDiagram.Outcome
import BlockDiagram.Proofs.Diagram.WellFormed

/-!
# Diagrams from configurations are well-formed

Every block of a configuration becomes a node under the id that its section, type and name make, and
every connection runs between nodes that were found.

* `wellFormed_of_blocks`: the nodes of a configuration are well-formed.
* `ends_of_connections`: both ends of a connection are nodes.
* `wellFormed_diagram`, `wellFormed_drawn`: so is the diagram, before and after layout.
-/

namespace BlockDiagram.Configuration

open Outcome

/-! ## Nodes -/

theorem wellFormed_of_blocksUnder {kind : Kind} {type : Option String} {place : String}
    {blocks : List (String × Value)} {nodes : List Node}
    (htype : kind.isTyped = false → type = none)
    (h : blocksUnder kind type place blocks = .ok nodes) : ∀ node ∈ nodes, node.WellFormed := by
  intro n hn
  obtain ⟨⟨name, body⟩, -, hblock⟩ := mem_of_mapM_eq_ok h n hn
  obtain ⟨config, -, hnode⟩ := bind_eq_ok.1 hblock
  cases hnode
  exact ⟨rfl, htype⟩

theorem wellFormed_of_blocksOf {sections : Value} {kind : Kind} {nodes : List Node}
    (h : blocksOf sections kind = .ok nodes) : ∀ node ∈ nodes, node.WellFormed := by
  obtain ⟨found, -, h⟩ := bind_eq_ok.1 h
  split at h
  · next typed =>
    obtain ⟨groups, hgroups, h⟩ := bind_eq_ok.1 h
    cases h
    intro n hn
    obtain ⟨group, hgroup, hn⟩ := List.mem_flatten.1 hn
    obtain ⟨⟨type, blocks⟩, -, hblocks⟩ := mem_of_mapM_eq_ok hgroups group hgroup
    dsimp only at hblocks
    split at hblocks
    · refine wellFormed_of_blocksUnder (fun huntyped => ?_) hblocks n hn
      rw [typed] at huntyped
      cases huntyped
    · cases hblocks
  · exact wellFormed_of_blocksUnder (fun _ => rfl) h

theorem wellFormed_of_blocks {sections : Value} {nodes : List Node}
    (h : blocks sections = .ok nodes) : ∀ node ∈ nodes, node.WellFormed := by
  obtain ⟨groups, hgroups, h⟩ := bind_eq_ok.1 h
  cases h
  intro n hn
  obtain ⟨group, hgroup, hn⟩ := List.mem_flatten.1 hn
  obtain ⟨kind, -, hkind⟩ := mem_of_mapM_eq_ok hgroups group hgroup
  exact wellFormed_of_blocksOf hkind n hn

/-! ## Connections -/

theorem has_of_resolve? {nodes : Table Node} {candidates : List String} {id : String}
    (h : resolve? nodes candidates = some id) : nodes.has id = true :=
  List.find?_some h

theorem ends_of_dependencies {nodes : Table Node} {node : Node} {c : Connection}
    (h : c ∈ dependencies nodes node) : nodes.has c.source = true ∧ c.target = node.id := by
  unfold dependencies at h
  split at h
  · obtain ⟨entry, -, hc⟩ := List.mem_filterMap.1 h
    obtain ⟨source, hsource, rfl⟩ := Option.map_eq_some_iff.1 hc
    exact ⟨has_of_resolve? hsource, rfl⟩
  · cases h

theorem ends_of_references {nodes : Table Node} {node : Node} {c : Connection}
    (h : c ∈ references nodes node) : nodes.has c.source = true ∧ c.target = node.id := by
  unfold references at h
  split at h
  · obtain ⟨⟨key, value⟩, -, hc⟩ := List.mem_flatMap.1 h
    dsimp only at hc
    split at hc
    · cases hc
    · obtain ⟨occurrence, -, hc⟩ := List.mem_filterMap.1 hc
      obtain ⟨source, hsource, rfl⟩ := Option.map_eq_some_iff.1 hc
      exact ⟨has_of_resolve? hsource, rfl⟩
  · cases h

theorem ends_of_connections {nodes : Table Node}
    (hkeys : ∀ key node, (key, node) ∈ nodes → node.id = key) {c : Connection}
    (h : c ∈ connections nodes) : nodes.has c.source = true ∧ nodes.has c.target = true := by
  obtain ⟨node, hnode, hc⟩ := List.mem_flatMap.1 h
  obtain ⟨⟨key, node⟩, hmem, rfl⟩ := List.mem_map.1 hnode
  have hends : nodes.has c.source = true ∧ c.target = node.id := by
    rcases List.mem_append.1 hc with hc | hc
    · exact ends_of_dependencies hc
    · exact ends_of_references hc
  refine ⟨hends.1, ?_⟩
  rw [hends.2, hkeys key node hmem]
  exact Table.has_of_mem hmem

/-! ## Diagrams -/

theorem wellFormed_connect {d : Diagram} (hd : d.WellFormed) {cs : List Connection}
    (hends : ∀ c ∈ cs, d.hasNode c.source = true ∧ d.hasNode c.target = true) :
    (cs.foldl Diagram.connect d).WellFormed := by
  induction cs generalizing d with
  | nil => exact hd
  | cons c cs ih =>
    have hc := hends c List.mem_cons_self
    exact ih (hd.addEdge hc.1 hc.2 c.type _ _)
      fun other hother => hends other (List.mem_cons_of_mem _ hother)

theorem wellFormed_diagram {configuration : Value} {options : Options} {d : Diagram}
    (h : diagram configuration options = .ok d) : d.WellFormed := by
  unfold diagram at h
  split at h
  · obtain ⟨found, hfound, h⟩ := bind_eq_ok.1 h
    cases h
    have hentries : ∀ key node, (key, node) ∈ Table.ofList (found.map fun n => (n.id, n)) →
        node.id = key ∧ node ∈ found := by
      intro key n hn
      obtain ⟨n, hmem, heq⟩ := List.mem_map.1 (Table.mem_of_mem_ofList hn)
      cases heq
      exact ⟨rfl, hmem⟩
    have hkeys := fun key node hnode => (hentries key node hnode).1
    refine wellFormed_connect ?_ fun c hc => ends_of_connections hkeys hc
    exact {
      keys_nodup := Table.nodup_keys_ofList _
      id_eq_key := hkeys
      node := fun key node hnode =>
        wellFormed_of_blocks hfound node (hentries key node hnode).2
      edgeIds_nodup := List.nodup_nil
      edgeId_text := fun e he => by cases he
      source := fun e he => by cases he
      target := fun e he => by cases he }
  · cases h

theorem wellFormed_drawn {configuration : Value} {options : Options} {d : Diagram}
    (h : drawn configuration options = .ok d) : d.WellFormed := by
  obtain ⟨unplaced, hunplaced, h⟩ := bind_eq_ok.1 h
  exact (wellFormed_diagram hunplaced).laidOut h

end BlockDiagram.Configuration
