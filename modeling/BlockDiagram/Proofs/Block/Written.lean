import BlockDiagram.Block.Files
import BlockDiagram.Proofs.Diagram.WellFormed

/-!
# What files are made of

Of a node only its identity and its attributes are written, and of a diagram only its nodes, in
order. Labels, icons, sizes, coordinates, edges and options leave no trace in files.

* `blockText_written`: the block of a node is that of what is written of it.
* `files_congr`: diagrams of which the same is written have the same files, or fail alike.
-/

namespace BlockDiagram

/-- What is written of a node. -/
def Node.written (node : Node) : Node :=
  { node with
    label := .null, x := .null, y := .null, width := .null, height := .null, icon := .null }

theorem Node.written_congr {node node' : Node} (hidentity : node'.identity = node.identity)
    (hconfig : node'.config = node.config) : node'.written = node.written := by
  simp only [Node.identity, Prod.mk.injEq] at hidentity
  obtain ⟨hid, hkind, hname, htype⟩ := hidentity
  rw [Node.written, Node.written, hid, hkind, hname, htype, hconfig]

/-- The block of a node is that of what is written of it. -/
theorem Node.blockText_written (node : Node) : node.written.blockText = node.blockText := by
  have htyped : Block.typedBlock node.written = Block.typedBlock node := rfl
  have hmodule : Block.moduleBlock node.written = Block.moduleBlock node := rfl
  have hvariable : Block.variableBlock node.written = Block.variableBlock node := rfl
  have houtput : Block.outputBlock node.written = Block.outputBlock node := rfl
  have hkind : node.written.kind = node.kind := rfl
  rw [Node.blockText, Node.blockText, hkind, htyped, hmodule, hvariable, houtput]

namespace Diagram

/-- What is written of a diagram. -/
def written (d : Diagram) : List Node := d.nodes.values.map Node.written

variable {d d' : Diagram}

theorem map_written_nodesOf (d : Diagram) (kind : Kind) :
    (d.nodesOf kind).map Node.written = d.written.filter fun node => node.kind = kind := by
  rw [nodesOf, written, List.filter_map]
  rfl

theorem blocks_eq (d : Diagram) (kinds : List Kind) :
    Files.blocks d kinds
      = (kinds.flatMap fun kind => d.written.filter fun node => node.kind = kind).mapM
        Node.blockText := by
  have hblocks : Node.blockText ∘ Node.written = Node.blockText :=
    funext Node.blockText_written
  simp only [Files.blocks, ← map_written_nodesOf]
  rw [← List.map_flatMap, List.mapM_map, hblocks]

theorem providers_eq (d : Diagram) :
    Files.providers d = Text.sortedNames (d.written.filterMap Files.nodeProvider?) := by
  rw [Files.providers, written, List.filterMap_map]
  rfl

/-- Diagrams of which the same is written have the same files, or fail alike. -/
theorem files_congr (h : d'.written = d.written) (extension : String) (withHeader : Bool) :
    d'.files extension withHeader = d.files extension withHeader := by
  have hfile : Files.file d' = Files.file d := by
    funext extension withHeader stem kinds
    rw [Files.file, Files.file, blocks_eq, blocks_eq, Files.header, Files.header, providers_eq,
      providers_eq, h]
  rw [files, files, hfile]

end Diagram

end BlockDiagram
