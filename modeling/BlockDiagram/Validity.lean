import BlockDiagram.Error
import BlockDiagram.Text.Order

/-!
# Checking diagrams

The issues of a diagram in order: ids of nodes, ends of edges, loops, nodes without edges, and
pairs of nodes with several edges.

* `Diagram.issues`: all issues.
* `Diagram.isValid`: no errors and, in strict mode, no warnings.
* `Diagram.checked`: the report, or a refusal that lists the errors.
-/

namespace BlockDiagram

namespace Diagram

/-- The issue of a node's ids, if there is one. -/
def nodeIdIssue? (key : String) (node : Node) : Option Issue :=
  if Text.isBlankText key || node.id == "" then some .emptyNodeId
  else if node.id != key then some (.nodeIdMismatch key node.id)
  else none

def nodeIdIssues (d : Diagram) : List Issue :=
  d.nodes.filterMap fun (key, node) => nodeIdIssue? key node

def endpointIssues (d : Diagram) (edge : Edge) : List Issue :=
  ([.source, .target] : List Endpoint).filterMap fun role =>
    if d.hasNode (edge.endpoint role) then none
    else some (.missingEndpoint edge.id role (edge.endpoint role))

def loopIssues (d : Diagram) : List Issue :=
  (d.edges.filter fun edge => edge.source = edge.target).map fun edge =>
    .selfLoop edge.id edge.source

/-- The nodes that no edge touches, in order of name. -/
def orphanIssues (d : Diagram) : List Issue :=
  let alone := d.nodes.keys.filter fun id => !d.edges.any fun edge => edge.touches id
  (Text.sortedNames alone).map .orphan

/-- The pairs that edges join, in order of their first edges. -/
def edgePairs (d : Diagram) : List (String × String) :=
  (d.edges.map fun edge => (edge.source, edge.target)).eraseDups

/-- The pairs with several edges. -/
def parallelIssues (d : Diagram) : List Issue :=
  d.edgePairs.filterMap fun (source, target) =>
    let count := (d.edgesBetween source target).length
    if 1 < count then some (.parallel count source target) else none

def issues (d : Diagram) : List Issue :=
  d.nodeIdIssues ++ d.edges.flatMap d.endpointIssues ++ d.loopIssues ++ d.orphanIssues
    ++ d.parallelIssues

def issuesOf (d : Diagram) (severity : Severity) : List Issue :=
  d.issues.filter fun issue => issue.severity = severity

/-- Whether a diagram has no errors and, in strict mode, no warnings. -/
def isValid (d : Diagram) (isStrict : Bool) : Bool :=
  (d.issuesOf .error).isEmpty && (!isStrict || (d.issuesOf .warning).isEmpty)

/-! ## Report -/

/-- The number of nodes of each kind that occurs, in order of the first node. -/
def kindCounts (d : Diagram) : List (String × Value) :=
  let kinds := d.nodes.values.map Node.kind
  kinds.eraseDups.map fun kind => (kind.key, .int (kinds.count kind))

def issueCount (d : Diagram) (severity : Severity) : Nat := (d.issuesOf severity).length

def report (d : Diagram) (isStrict : Bool) : Value :=
  .record [
    ("is_valid", .bool (d.isValid isStrict)),
    ("error_count", .int (d.issueCount .error)),
    ("warning_count", .int (d.issueCount .warning)),
    ("info_count", .int (d.issueCount .info)),
    ("issues", .list (d.issues.map Issue.toValue)),
    ("stats", .record ([("nodes", .int d.nodes.length), ("edges", .int d.edges.length)]
      ++ d.kindCounts))]

/-- The report of a check in one line. -/
def summary (d : Diagram) (isStrict : Bool) : String :=
  (if d.isValid isStrict then "Valid" else "Invalid")
    ++ " | Errors: " ++ Nat.repr (d.issueCount .error)
    ++ ", Warnings: " ++ Nat.repr (d.issueCount .warning)
    ++ ", Info: " ++ Nat.repr (d.issueCount .info)

/-- The report of a check; errors are a refusal. -/
def checked (d : Diagram) : Except Error Value :=
  if d.isValid false then .ok (d.report false)
  else .error (.invalid (.broken (d.issuesOf .error)))

end Diagram

end BlockDiagram
