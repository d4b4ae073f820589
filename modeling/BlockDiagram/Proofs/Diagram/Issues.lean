import BlockDiagram.Proofs.Diagram.Validity
import BlockDiagram.Proofs.Drawing.Independence
import BlockDiagram.Snapshot.Reader

/-!
# The issues of a diagram, one by one

A check reports what its passes look for and nothing else: an error exactly if a key is blank, a
node stands under another key than its id, or an end of an edge is no node; and one issue for each
missing end, loop, node without edges, and pair with several edges. So the check and the layout find
the same edges dangling, and a diagram read from a snapshot is broken only by the ends of its edges.

* `Diagram.IsBroken`: what errors are about; `Diagram.issuesWith`: the issues of one code.
* `Diagram.exists_error_iff`, `Diagram.isValid_iff`: errors, and validity in either mode.
* `Diagram.exists_dangling_iff`: the layout refuses a diagram with a missing end.
* `Diagram.HasExactIssues`, `Diagram.issues_exact`: all of it, for every diagram and snapshot.
-/

namespace BlockDiagram

/-- The code of the issue of a missing end. -/
def Endpoint.missingCode : Endpoint → String
  | .source => "MISSING_SOURCE_NODE"
  | .target => "MISSING_TARGET_NODE"

namespace Diagram

variable {d : Diagram} {code : String}

/-- The issues of one code, in order. -/
def issuesWith (d : Diagram) (code : String) : List Issue :=
  d.issues.filter fun issue => issue.code = code

/-- A key is blank, a node stands under another key than its id, or an end of an edge is no node. -/
def IsBroken (d : Diagram) : Prop :=
  (∃ entry ∈ d.nodes, Text.isBlankText entry.1 = true ∨ entry.2.id ≠ entry.1) ∨
    ∃ edge ∈ d.edges, ∃ role, edge.endpoint role ∉ d.nodes.keys

theorem hasNode_iff {id : String} : d.hasNode id = true ↔ id ∈ d.nodes.keys :=
  Table.mem_keys_iff.symm

/-! ## Errors -/

theorem nodeIdIssue?_isSome_iff (key : String) (node : Node) :
    (nodeIdIssue? key node).isSome = true ↔ Text.isBlankText key = true ∨ node.id ≠ key := by
  have hempty : Text.isBlankText "" = true := rfl
  unfold nodeIdIssue?
  split
  · next hblank =>
    refine iff_of_true rfl ?_
    rw [Bool.or_eq_true, beq_iff_eq] at hblank
    rcases hblank with hblank | hid
    · exact .inl hblank
    · by_cases hkey : key = ""
      · exact .inl (by rw [hkey, hempty])
      · exact .inr fun hsame => hkey (hsame.symm.trans hid)
  · next hblank =>
    rw [Bool.or_eq_true, not_or] at hblank
    split
    · next hdiffers => exact iff_of_true rfl (.inr (bne_iff_ne.1 hdiffers))
    · next hsame =>
      refine iff_of_false Bool.false_ne_true (not_or.2 ⟨hblank.1, ?_⟩)
      exact fun hne => hsame (bne_iff_ne.2 hne)

theorem endpointIssues_ne_nil_iff {edge : Edge} :
    d.endpointIssues edge ≠ [] ↔ ∃ role, edge.endpoint role ∉ d.nodes.keys := by
  rw [endpointIssues, Ne, List.filterMap_eq_nil_iff, not_forall]
  refine exists_congr fun role => ?_
  have hrole : role ∈ ([.source, .target] : List Endpoint) := by cases role <;> decide
  rw [← hasNode_iff]
  split <;> simp_all

/-- The errors of a diagram are that it is broken. -/
theorem exists_error_iff (d : Diagram) :
    (∃ issue ∈ d.issues, issue.severity = .error) ↔ d.IsBroken := by
  have hany : (∃ issue ∈ d.issues, issue.severity = .error) ↔ d.issuesOf .error ≠ [] := by
    simp [issuesOf, List.filter_eq_nil_iff]
  rw [hany, issuesOf_error, Ne, List.append_eq_nil_iff, not_and_or, IsBroken]
  refine or_congr ?_ ?_
  · rw [nodeIdIssues, List.filterMap_eq_nil_iff]
    push Not
    refine exists_congr fun entry => and_congr_right fun _ => ?_
    rw [← nodeIdIssue?_isSome_iff, Option.isSome_iff_ne_none]
  · rw [List.flatMap_eq_nil_iff]
    push Not
    exact exists_congr fun edge => and_congr_right fun _ => endpointIssues_ne_nil_iff

/-! ## Issues by their codes -/

theorem filter_code_eq {issues : List Issue} {own : String}
    (h : ∀ issue ∈ issues, issue.code = own) (code : String) :
    (issues.filter fun issue => issue.code = code) = if code = own then issues else [] := by
  split
  · next hsame => exact List.filter_eq_self.2 fun issue hmem => by simp [h issue hmem, hsame]
  · next hdiffers =>
    exact List.filter_eq_nil_iff.2 fun issue hmem => by simp [h issue hmem, Ne.symm hdiffers]

theorem filter_code_nodeIdIssues (hempty : code ≠ "EMPTY_NODE_ID")
    (hmismatch : code ≠ "NODE_ID_MISMATCH") :
    (d.nodeIdIssues.filter fun issue => issue.code = code) = [] := by
  refine List.filter_eq_nil_iff.2 fun issue hissue => ?_
  obtain ⟨⟨key, node⟩, -, h⟩ := List.mem_filterMap.1 hissue
  simp only [nodeIdIssue?] at h
  split at h
  · cases h
    exact fun hcode => hempty (of_decide_eq_true hcode).symm
  · split at h
    · cases h
      exact fun hcode => hmismatch (of_decide_eq_true hcode).symm
    · cases h

theorem filter_code_endpointIssues (edge : Edge) (role : Endpoint) :
    ((d.endpointIssues edge).filter fun issue => issue.code = role.missingCode)
      = if d.hasNode (edge.endpoint role) then []
        else [.missingEndpoint edge.id role (edge.endpoint role)] := by
  rw [endpointIssues]
  by_cases hsource : d.hasNode (edge.endpoint .source) = true <;>
    by_cases htarget : d.hasNode (edge.endpoint .target) = true <;>
    cases role <;> simp [hsource, htarget, Issue.code, Endpoint.missingCode]

theorem filter_code_endpointIssues_other (hother : ∀ role : Endpoint, code ≠ role.missingCode)
    (edge : Edge) : ((d.endpointIssues edge).filter fun issue => issue.code = code) = [] := by
  refine List.filter_eq_nil_iff.2 fun issue hissue => ?_
  obtain ⟨role, -, h⟩ := List.mem_filterMap.1 hissue
  split at h
  · cases h
  · cases h
    intro hcode
    refine hother role ((of_decide_eq_true hcode).symm.trans ?_)
    cases role <;> rfl

/-- The last three passes report under a code of their own each. -/
theorem issuesWith_eq (d : Diagram) (code : String) :
    d.issuesWith code = (d.nodeIdIssues.filter fun issue => issue.code = code)
      ++ (d.edges.flatMap fun edge => (d.endpointIssues edge).filter fun issue => issue.code = code)
      ++ (if code = "SELF_LOOP" then d.loopIssues else [])
      ++ (if code = "ORPHANED_NODE" then d.orphanIssues else [])
      ++ (if code = "PARALLEL_EDGES" then d.parallelIssues else []) := by
  have hloops : ∀ issue ∈ d.loopIssues, issue.code = "SELF_LOOP" := by
    intro issue hissue
    obtain ⟨edge, -, rfl⟩ := List.mem_map.1 hissue
    rfl
  have horphans : ∀ issue ∈ d.orphanIssues, issue.code = "ORPHANED_NODE" := by
    intro issue hissue
    obtain ⟨id, -, rfl⟩ := List.mem_map.1 hissue
    rfl
  have hparallel : ∀ issue ∈ d.parallelIssues, issue.code = "PARALLEL_EDGES" := by
    intro issue hissue
    obtain ⟨⟨source, target⟩, -, h⟩ := List.mem_filterMap.1 hissue
    dsimp only at h
    split at h
    · cases h; rfl
    · cases h
  simp only [issuesWith, issues, List.filter_append, List.filter_flatMap, filter_code_eq hloops,
    filter_code_eq horphans, filter_code_eq hparallel]

theorem flatMap_ite_nil {α β : Type} (items : List α) (p : α → Bool) (f : α → β) :
    (items.flatMap fun a => if p a = true then [] else [f a])
      = (items.filter fun a => !p a).map f := by
  induction items with
  | nil => rfl
  | cons a rest ih =>
    rw [List.flatMap_cons, ih, List.filter_cons]
    cases p a <;> rfl

/-- One issue for each end of an edge that is no node. -/
theorem issuesWith_missingCode (d : Diagram) (role : Endpoint) :
    d.issuesWith role.missingCode
      = (d.edges.filter fun edge => !d.hasNode (edge.endpoint role)).map fun edge =>
        .missingEndpoint edge.id role (edge.endpoint role) := by
  have hempty : role.missingCode ≠ "EMPTY_NODE_ID" := by cases role <;> decide
  have hmismatch : role.missingCode ≠ "NODE_ID_MISMATCH" := by cases role <;> decide
  have hloop : role.missingCode ≠ "SELF_LOOP" := by cases role <;> decide
  have horphan : role.missingCode ≠ "ORPHANED_NODE" := by cases role <;> decide
  have hparallel : role.missingCode ≠ "PARALLEL_EDGES" := by cases role <;> decide
  rw [issuesWith_eq, filter_code_nodeIdIssues hempty hmismatch, if_neg hloop, if_neg horphan,
    if_neg hparallel]
  simp only [filter_code_endpointIssues, List.nil_append, List.append_nil]
  exact flatMap_ite_nil d.edges (fun edge => d.hasNode (edge.endpoint role)) _

/-- Of a code that is none of the first two passes' the last three have all issues. -/
theorem issuesWith_eq_of_ne (d : Diagram) (hempty : code ≠ "EMPTY_NODE_ID")
    (hmismatch : code ≠ "NODE_ID_MISMATCH") (hother : ∀ role : Endpoint, code ≠ role.missingCode) :
    d.issuesWith code = (if code = "SELF_LOOP" then d.loopIssues else [])
      ++ (if code = "ORPHANED_NODE" then d.orphanIssues else [])
      ++ (if code = "PARALLEL_EDGES" then d.parallelIssues else []) := by
  have hends : (d.edges.flatMap fun edge =>
      (d.endpointIssues edge).filter fun issue => issue.code = code) = [] :=
    List.flatMap_eq_nil_iff.2 fun edge _ => filter_code_endpointIssues_other hother edge
  rw [issuesWith_eq, filter_code_nodeIdIssues hempty hmismatch, hends]
  rfl

/-- One issue for each edge that ends where it starts. -/
theorem issuesWith_selfLoop (d : Diagram) : d.issuesWith "SELF_LOOP"
    = (d.edges.filter fun edge => edge.source = edge.target).map fun edge =>
      .selfLoop edge.id edge.source := by
  rw [d.issuesWith_eq_of_ne (by decide) (by decide) (by rintro ⟨⟩ <;> decide)]
  simp [loopIssues]

/-- One issue for each node that no edge touches. -/
theorem exists_issuesWith_orphan (d : Diagram) : ∃ alone : List String, alone.Nodup ∧
    (∀ id, id ∈ alone ↔ id ∈ d.nodes.keys ∧ ∀ edge ∈ d.edges, edge.touches id = false) ∧
    d.issuesWith "ORPHANED_NODE" = alone.map .orphan := by
  refine ⟨Text.sortedNames (d.nodes.keys.filter fun id => !d.edges.any fun edge => edge.touches id),
    Text.nodup_sortedNames _, fun id => ?_, ?_⟩
  · simp [List.mem_filter]
  · rw [d.issuesWith_eq_of_ne (by decide) (by decide) (by rintro ⟨⟩ <;> decide)]
    simp [orphanIssues]

theorem mem_edgePairs_of_edgesBetween {pair : String × String}
    (h : 0 < (d.edgesBetween pair.1 pair.2).length) : pair ∈ d.edgePairs := by
  obtain ⟨edge, hedge⟩ := List.exists_mem_of_length_pos h
  obtain ⟨hedge, hjoins⟩ := List.mem_filter.1 hedge
  rw [Edge.joins, Bool.and_eq_true, beq_iff_eq, beq_iff_eq] at hjoins
  rw [edgePairs, List.mem_eraseDups]
  exact List.mem_map.2 ⟨edge, hedge, Prod.ext hjoins.1 hjoins.2⟩

/-- One issue for each pair that several edges join. -/
theorem exists_issuesWith_parallel (d : Diagram) : ∃ pairs : List (String × String), pairs.Nodup ∧
    (∀ pair, pair ∈ pairs ↔ 2 ≤ (d.edgesBetween pair.1 pair.2).length) ∧
    d.issuesWith "PARALLEL_EDGES" = pairs.map fun pair =>
      .parallel (d.edgesBetween pair.1 pair.2).length pair.1 pair.2 := by
  refine ⟨d.edgePairs.filter fun pair => 1 < (d.edgesBetween pair.1 pair.2).length,
    (Text.eraseDups_nodup _).filter _, fun pair => ?_, ?_⟩
  · rw [List.mem_filter, decide_eq_true_iff]
    exact and_iff_right_of_imp fun h => mem_edgePairs_of_edgesBetween (Nat.lt_of_succ_lt h)
  · rw [d.issuesWith_eq_of_ne (by decide) (by decide) (by rintro ⟨⟩ <;> decide),
      ← List.filterMap_eq_map, List.filterMap_filter]
    simp [parallelIssues]

/-! ## Validity -/

theorem exists_warning_iff (d : Diagram) : (∃ issue ∈ d.issues, issue.severity = .warning)
    ↔ ∃ edge ∈ d.edges, edge.source = edge.target := by
  have hloops : ∀ issue ∈ d.issues, issue.severity = .warning → issue ∈ d.loopIssues := by
    intro issue hissue hwarning
    simp only [issues, List.mem_append] at hissue
    rcases hissue with (((hid | hend) | hloop) | horphan) | hparallel
    · exact absurd ((severity_of_mem_nodeIdIssues hid).symm.trans hwarning) (by decide)
    · obtain ⟨edge, -, hend⟩ := List.mem_flatMap.1 hend
      exact absurd ((severity_of_mem_endpointIssues hend).symm.trans hwarning) (by decide)
    · exact hloop
    · exact absurd ((severity_of_mem_orphanIssues horphan).symm.trans hwarning) (by decide)
    · exact absurd ((severity_of_mem_parallelIssues hparallel).symm.trans hwarning) (by decide)
  constructor
  · rintro ⟨issue, hissue, hwarning⟩
    obtain ⟨edge, hedge, -⟩ := List.mem_map.1 (hloops issue hissue hwarning)
    obtain ⟨hedge, hsame⟩ := List.mem_filter.1 hedge
    exact ⟨edge, hedge, of_decide_eq_true hsame⟩
  · rintro ⟨edge, hedge, hsame⟩
    have hloop : Issue.selfLoop edge.id edge.source ∈ d.loopIssues :=
      List.mem_map_of_mem (List.mem_filter.2 ⟨hedge, decide_eq_true hsame⟩)
    have hmem : Issue.selfLoop edge.id edge.source ∈ d.issues := by simp [issues, hloop]
    exact ⟨_, hmem, rfl⟩

theorem isEmpty_issuesOf_iff (d : Diagram) (severity : Severity) :
    (d.issuesOf severity).isEmpty = true ↔ ¬ ∃ issue ∈ d.issues, issue.severity = severity := by
  simp [issuesOf, List.filter_eq_nil_iff]

/-- A diagram is valid if it is not broken and, in strict mode, has no loops. -/
theorem isValid_iff (d : Diagram) (isStrict : Bool) : d.isValid isStrict = true ↔
    ¬ d.IsBroken ∧ (isStrict = true → ∀ edge ∈ d.edges, edge.source ≠ edge.target) := by
  have hwarnings : (∀ edge ∈ d.edges, edge.source ≠ edge.target)
      ↔ ¬ ∃ issue ∈ d.issues, issue.severity = .warning := by
    rw [exists_warning_iff]
    push Not
    rfl
  rw [isValid, Bool.and_eq_true, Bool.or_eq_true, isEmpty_issuesOf_iff, isEmpty_issuesOf_iff,
    exists_error_iff, hwarnings]
  cases isStrict <;> simp

theorem exists_checked_iff (d : Diagram) :
    (∃ report, d.checked = .ok report) ↔ ¬ d.IsBroken := by
  have hvalid := d.isValid_iff false
  rw [and_iff_left fun h => absurd h Bool.false_ne_true] at hvalid
  rw [← hvalid, checked]
  split
  · next h => exact iff_of_true ⟨_, rfl⟩ h
  · next h => exact iff_of_false (by rintro ⟨report, ⟨⟩⟩) h

/-! ## Layout -/

theorem isDangling_iff {edge : Edge} :
    d.isDangling edge = true ↔ ∃ role, edge.endpoint role ∉ d.nodes.keys := by
  have hrole : ∀ p : Endpoint → Prop, (∃ role, p role) ↔ p .source ∨ p .target :=
    fun p => ⟨fun ⟨role, h⟩ => by cases role; exacts [.inl h, .inr h],
      fun h => h.elim (⟨_, ·⟩) (⟨_, ·⟩)⟩
  rw [hrole, ← hasNode_iff, ← hasNode_iff, isDangling, Bool.or_eq_true, Bool.not_eq_true',
    Bool.not_eq_true', Bool.not_eq_true, Bool.not_eq_true]
  rfl

theorem exists_isDangling_iff : (∃ edge ∈ d.edges, d.isDangling edge = true)
    ↔ ∃ role : Endpoint, d.issuesWith role.missingCode ≠ [] := by
  simp only [isDangling_iff, issuesWith_missingCode, Ne, List.map_eq_nil_iff,
    List.filter_eq_nil_iff, ← hasNode_iff]
  push Not
  constructor
  · rintro ⟨edge, hedge, role, hmissing⟩
    exact ⟨role, edge, hedge, by simpa using hmissing⟩
  · rintro ⟨role, edge, hedge, hmissing⟩
    exact ⟨edge, hedge, role, by simpa using hmissing⟩

/-- The layout refuses a diagram whose edges have an order exactly if an end is missing. -/
theorem exists_dangling_iff (horder : d.HasEdgeOrder) :
    (∃ id source target, d.digraph = .error (.dangling id source target))
      ↔ ∃ role : Endpoint, d.issuesWith role.missingCode ≠ [] := by
  rw [← exists_isDangling_iff]
  constructor
  · rintro ⟨id, source, target, herror⟩
    by_contra hnone
    push Not at hnone
    obtain ⟨pairs, hpairs, -⟩ :=
      exists_digraph horder fun edge hedge => Bool.eq_false_iff.2 (hnone edge hedge)
    rw [herror] at hpairs
    cases hpairs
  · rintro ⟨edge, hedge, hdangling⟩
    obtain ⟨sorted, hsorted⟩ := horder
    have hperm : sorted.Perm d.edges := Arrangement.perm_ofList hsorted
    obtain ⟨found, hfound⟩ := Option.isSome_iff_exists.1
      (List.find?_isSome.2 ⟨edge, hperm.mem_iff.2 hedge, hdangling⟩)
    refine ⟨found.id, found.source, found.target, ?_⟩
    simp only [digraph, hsorted, pure_bind, hfound]

end Diagram

/-! ## Snapshots -/

namespace Snapshot

open Outcome

/-- The ends of an edge of a snapshot. -/
def ends? (edge : Value) : Option (String × String) :=
  match edge with
  | .record fields => do
    let source ← endpoint? fields "sourceId" "source_id"
    let target ← endpoint? fields "targetId" "target_id"
    return (source, target)
  | _ => none

/-- The nodes of a snapshot are read one by one, each under its id. -/
theorem exists_nodes_of_foldlM_addNode {values : List Value} {start d : Diagram}
    (h : values.foldlM addNode start = .ok d) : ∃ nodes, values.mapM Payload.node = .ok nodes ∧
      d.nodes = start.nodes ++ nodes.map (fun node => (node.id, node)) ∧ d.edges = start.edges := by
  induction values generalizing start with
  | nil =>
    cases h
    exact ⟨[], rfl, (List.append_nil _).symm, rfl⟩
  | cons value rest ih =>
    rw [List.foldlM_cons] at h
    obtain ⟨next, hnext, h⟩ := bind_eq_ok.1 h
    obtain ⟨nodes, hnodes, hall, hedges⟩ := ih h
    rw [addNode] at hnext
    obtain ⟨node, hnode, hnext⟩ := bind_eq_ok.1 hnext
    dsimp only at hnext
    split at hnext
    · cases hnext
    · next hnew =>
      cases hnext
      refine ⟨node :: nodes, ?_, ?_, hedges⟩
      · rw [List.mapM_cons, hnode, hnodes]
        rfl
      · rw [hall, Diagram.putNode, Table.put_of_not_mem (mt Table.mem_keys_iff.1 hnew)]
        simp

/-- The edges of a snapshot are read one by one, each with its ends, and leave the nodes. -/
theorem map_ends?_of_foldlM_addEdge {same : Value → Value → Bool} {values : List Value}
    {start d : Diagram} (h : values.foldlM (addEdge same) start = .ok d) :
    d.nodes = start.nodes ∧
      d.edges.map (fun edge => some (edge.source, edge.target))
        = start.edges.map (fun edge => some (edge.source, edge.target)) ++ values.map ends? := by
  induction values generalizing start with
  | nil =>
    cases h
    exact ⟨rfl, (List.append_nil _).symm⟩
  | cons value rest ih =>
    rw [List.foldlM_cons] at h
    obtain ⟨next, hnext, h⟩ := bind_eq_ok.1 h
    obtain ⟨hnodes, hedges⟩ := ih h
    unfold addEdge at hnext
    split at hnext
    · next fields =>
      split at hnext
      · next source target hsource htarget =>
        dsimp only at hnext
        split at hnext
        · cases hnext
        split at hnext
        · cases hnext
        obtain ⟨type, -, hnext⟩ := bind_eq_ok.1 hnext
        cases hnext
        have hends : ends? (.record fields) = some (source, target) := by
          simp [ends?, hsource, htarget]
        refine ⟨hnodes, ?_⟩
        rw [hedges, List.map_append, List.append_assoc]
        simp [hends]
      · cases hnext
    · cases hnext

/-- A diagram that is read from a snapshot has the snapshot's nodes, each under its id, and the
snapshot's edges with their ends. -/
theorem exists_nodes_of_diagram {value : Value} {d : Diagram} (h : diagram value = .ok d) :
    ∃ values edges nodes, items value "nodes" = .ok values ∧ items value "edges" = .ok edges ∧
      values.mapM Payload.node = .ok nodes ∧ d.nodes = nodes.map (fun node => (node.id, node)) ∧
      d.edges.map (fun edge => some (edge.source, edge.target)) = edges.map ends? := by
  unfold diagram diagramBy at h
  split at h
  · obtain ⟨values, hvalues, h⟩ := bind_eq_ok.1 h
    obtain ⟨edges, hedges, h⟩ := bind_eq_ok.1 h
    obtain ⟨options, -, h⟩ := bind_eq_ok.1 h
    obtain ⟨start, hstart, h⟩ := bind_eq_ok.1 h
    obtain ⟨nodes, hnodes, hall, hnone⟩ := exists_nodes_of_foldlM_addNode hstart
    obtain ⟨hkept, hends⟩ := map_ends?_of_foldlM_addEdge h
    refine ⟨values, edges, nodes, hvalues, hedges, hnodes, hkept.trans hall, ?_⟩
    rw [hends, hnone]
    rfl
  · cases h

theorem isBlankText_id_of_node {value : Value} {node : Node} (h : Payload.node value = .ok node) :
    Text.isBlankText node.id = false := by
  rw [(Diagram.wellFormed_of_node h).id_eq]
  exact node.kind.isBlankText_nodeId node.name node.resourceType

/-- A diagram of a snapshot is broken only by the ends of its edges. -/
theorem not_isBroken_iff {d : Diagram} {values edges : List Value} {nodes : List Node}
    (hnodes : values.mapM Payload.node = .ok nodes)
    (hall : d.nodes = nodes.map fun node => (node.id, node))
    (hends : d.edges.map (fun edge => some (edge.source, edge.target)) = edges.map ends?) :
    ¬ d.IsBroken ↔ ∀ edge ∈ edges, ∃ source target, ends? edge = some (source, target) ∧
      source ∈ nodes.map Node.id ∧ target ∈ nodes.map Node.id := by
  have hkeys : d.nodes.keys = nodes.map Node.id := by
    rw [hall, Table.keys, List.map_map]
    rfl
  have hids : ¬ ∃ entry ∈ d.nodes, Text.isBlankText entry.1 = true ∨ entry.2.id ≠ entry.1 := by
    rintro ⟨entry, hentry, hodd⟩
    rw [hall] at hentry
    obtain ⟨node, hnode, rfl⟩ := List.mem_map.1 hentry
    obtain ⟨value, -, hread⟩ := mem_of_mapM_eq_ok hnodes node hnode
    rcases hodd with hblank | hdiffers
    · exact Bool.noConfusion (hblank.symm.trans (isBlankText_id_of_node hread))
    · exact hdiffers rfl
  -- Both sides speak of the ends alone, edge by edge.
  have hedges : (¬ ∃ edge ∈ d.edges, ∃ role : Endpoint, edge.endpoint role ∉ d.nodes.keys)
      ↔ ∀ ends ∈ d.edges.map fun edge => some (edge.source, edge.target), ∃ source target,
        ends = some (source, target) ∧ source ∈ nodes.map Node.id ∧
          target ∈ nodes.map Node.id := by
    rw [List.forall_mem_map, hkeys]
    push Not
    refine forall₂_congr fun edge _ => ?_
    constructor
    · exact fun h => ⟨_, _, rfl, h .source, h .target⟩
    · rintro ⟨source, target, hsame, hsource, htarget⟩ role
      cases hsame
      cases role
      · exact hsource
      · exact htarget
  rw [Diagram.IsBroken, or_iff_right hids, hedges, hends, List.forall_mem_map]

end Snapshot

namespace Diagram

/-- The issues of a diagram are those that its passes look for, each once. -/
structure HasExactIssues (d : Diagram) : Prop where
  errors : (∃ issue ∈ d.issues, issue.severity = .error) ↔ d.IsBroken
  missing : ∀ role : Endpoint, d.issuesWith role.missingCode
    = (d.edges.filter fun edge => !d.hasNode (edge.endpoint role)).map fun edge =>
      .missingEndpoint edge.id role (edge.endpoint role)
  loops : d.issuesWith "SELF_LOOP"
    = (d.edges.filter fun edge => edge.source = edge.target).map fun edge =>
      .selfLoop edge.id edge.source
  orphans : ∃ alone : List String, alone.Nodup ∧
    (∀ id, id ∈ alone ↔ id ∈ d.nodes.keys ∧ ∀ edge ∈ d.edges, edge.touches id = false) ∧
    d.issuesWith "ORPHANED_NODE" = alone.map .orphan
  parallel : ∃ pairs : List (String × String), pairs.Nodup ∧
    (∀ pair, pair ∈ pairs ↔ 2 ≤ (d.edgesBetween pair.1 pair.2).length) ∧
    d.issuesWith "PARALLEL_EDGES" = pairs.map fun pair =>
      .parallel (d.edgesBetween pair.1 pair.2).length pair.1 pair.2
  strict : d.isValid true = true ↔
    ¬ d.IsBroken ∧ ∀ edge ∈ d.edges, edge.source ≠ edge.target

/-- Every diagram has exactly the issues that its passes look for. If the ids of its edges are
texts, the layout finds an edge dangling exactly if the check misses an end. A diagram that is read
from a snapshot passes the check exactly if the ends of the snapshot's edges are among its nodes. -/
theorem issues_exact :
    (∀ d : Diagram, d.HasExactIssues) ∧
    (∀ d : Diagram, (∀ edge ∈ d.edges, ∃ s, edge.id = .text s) →
      ((∃ id source target, d.digraph = .error (.dangling id source target)) ↔
        ∃ role : Endpoint, d.issuesWith role.missingCode ≠ [])) ∧
    ∀ value d, Snapshot.diagram value = .ok d → ∃ values edges nodes,
      Snapshot.items value "nodes" = .ok values ∧ Snapshot.items value "edges" = .ok edges ∧
      values.mapM Payload.node = .ok nodes ∧
      ((∃ report, d.checked = .ok report) ↔ ∀ edge ∈ edges, ∃ source target,
        Snapshot.ends? edge = some (source, target) ∧ source ∈ nodes.map Node.id ∧
          target ∈ nodes.map Node.id) := by
  refine ⟨fun d => ?_, fun d htext => exists_dangling_iff (HasTextIds.hasEdgeOrder htext),
    fun value d hd => ?_⟩
  · have hstrict := d.isValid_iff true
    rw [forall_prop_of_true rfl] at hstrict
    exact
      { errors := d.exists_error_iff
        missing := d.issuesWith_missingCode
        loops := d.issuesWith_selfLoop
        orphans := d.exists_issuesWith_orphan
        parallel := d.exists_issuesWith_parallel
        strict := hstrict }
  · obtain ⟨values, edges, nodes, hvalues, hedges, hnodes, hall, hends⟩ :=
      Snapshot.exists_nodes_of_diagram hd
    refine ⟨values, edges, nodes, hvalues, hedges, hnodes, ?_⟩
    rw [exists_checked_iff, Snapshot.not_isBroken_iff hnodes hall hends]

/-- A snapshot of one variable with an edge to another one. -/
def frayedSnapshot : Value :=
  .record [("nodes", .list [.record [("kind", .text "variable"), ("name", .text "a")]]),
    ("edges", .list [.record [("id", .text "e"), ("sourceId", .text "var.a"),
      ("targetId", .text "var.b")]])]

/-- The same as a diagram, with the edge alone. -/
def frayed : Diagram :=
  { empty with edges := [⟨.text "e", "var.a", "var.b", .reference, .text "", .null⟩] }

theorem issues_exact_frayed :
    (∃ id source target, frayed.digraph = .error (.dangling id source target)) ∧
    ∃ d, Snapshot.diagram frayedSnapshot = .ok d ∧ ¬ ∃ report, d.checked = .ok report := by
  obtain ⟨hexact, hlayout, hsnapshot⟩ := issues_exact
  refine ⟨(hlayout frayed ?_).2 ⟨.source, ?_⟩, ?_⟩
  · exact List.forall_mem_singleton.2 ⟨"e", rfl⟩
  · rw [(hexact frayed).missing]
    decide
  · obtain ⟨d, hd⟩ := Outcome.exists_eq_ok_of_isOk (x := Snapshot.diagram frayedSnapshot)
      (by decide +kernel)
    obtain ⟨values, edges, nodes, hvalues, hedges, hnodes, hiff⟩ := hsnapshot _ d hd
    cases hvalues
    cases hedges
    have hids : ((.ok nodes : Except Error (List Node)).map (List.map Node.id)).toOption
        = some ["var.a"] := by
      rw [← hnodes]
      decide +kernel
    refine ⟨d, hd, fun hchecked => ?_⟩
    obtain ⟨source, target, hends, -, htarget⟩ := hiff.1 hchecked _ List.mem_cons_self
    cases hends
    rw [Option.some.inj hids] at htarget
    exact absurd htarget (by decide)

end Diagram

end BlockDiagram
