import BlockDiagram.Diagram

/-!
# Snapshots

A snapshot is a diagram as a value. Types, icons and verbs are left out when they are not given.
-/

namespace BlockDiagram

/-- A field of a snapshot, left out unless it counts as given. -/
def givenField (key : String) (value : Value) : List (String × Value) :=
  if value.isTruthy then [(key, value)] else []

def nameValue : Option String → Value
  | some s => .text s
  | none => .null

def Node.toValue (node : Node) : Value :=
  .record ([
    ("id", .text node.id), ("kind", .text node.kind.key), ("name", nameValue node.name),
    ("label", node.label), ("config", node.config), ("x", node.x), ("y", node.y),
    ("width", node.width), ("height", node.height)]
    ++ givenField "resourceType" (nameValue node.resourceType) ++ givenField "icon" node.icon)

def Edge.toValue (edge : Edge) : Value :=
  .record ([
    ("id", edge.id), ("sourceId", .text edge.source), ("targetId", .text edge.target),
    ("type", .text edge.type.key), ("label", edge.label)]
    ++ givenField "verb" edge.verb)

def Options.toValue (options : Options) : Value :=
  .record [
    ("rankdir", .text options.direction.key), ("nodesep", options.nodeSpacing),
    ("ranksep", options.rankSpacing), ("marginx", options.marginX), ("marginy", options.marginY)]

def Diagram.snapshotFields (d : Diagram) : List (String × Value) := [
  ("nodes", .list (d.nodes.values.map Node.toValue)),
  ("edges", .list (d.edges.map Edge.toValue)),
  ("width", d.width), ("height", d.height), ("layout", d.options.toValue)]

def Diagram.snapshot (d : Diagram) : Value := .record d.snapshotFields

end BlockDiagram
