import BlockDiagram.Proofs.Block.Written
import BlockDiagram.Proofs.Service.Redrawn
import Mathlib.Data.List.Induction

/-!
# What an answer changes

An answer is taken over one suggestion after the other. What is left of it in the end can be said
for every field of every node and edge on its own: the last suggestion for the id that has a text
for the field decides, and without one the field stays as it is. Nothing else changes.

What counts in an answer is stated apart from how it is taken over: `Offers` says what one entry of
a list has to offer, `Settles` which entry of the list decides, and `TakesOver` what that comes to
for a whole diagram.

* `Diagram.lastSuggested?`: the text that decides.
* `Diagram.settles_iff`: it is that of the last entry that offers one.
* `Diagram.WellFormed.takesOver_relabelled`: what all suggestions come to.
* `Diagram.relabelled_relabelled`: an answer that was taken over has nothing to add.
* `Diagram.files_relabelled`, `Diagram.WellFormed.drawing_relabelled`: labels, icons and verbs are
  seen neither in files nor in layouts.
-/

namespace BlockDiagram

namespace Diagram

/-! ## What counts in an answer -/

/-- Whether an entry of an answer offers a text for a field of what has an id. It has to be a record
whose own id, written out, is that id, and whose field holds a text of which this one is left, and
not nothing, without the white space around it. -/
def Offers (entry id : Value) (field text : String) : Prop :=
  ∃ fields raw, entry = .record fields ∧ id = .text ((Table.get? fields "id").getD .null).shown ∧
    Table.get? fields field = some (.text raw) ∧ Text.IsStripped raw text ∧ text ≠ ""

/-- What the list under a key of an answer makes of a field of what has an id: the text that the
last entry with an offer has, or else the old value. -/
inductive Settles (answer : Table Value) (key : String) (id : Value) (field : String)
    (old : Value) : Value → Prop where
  | taken {before after : List Value} {entry : Value} {text : String}
      (hlist : answer.get? key = some (.list (before ++ entry :: after)))
      (hoffer : Offers entry id field text)
      (hlater : ∀ later ∈ after, ∀ other, ¬ Offers later id field other) :
      Settles answer key id field old (.text text)
  | kept (hnone : ∀ items, answer.get? key = some (.list items) →
      ∀ entry ∈ items, ∀ text, ¬ Offers entry id field text) :
      Settles answer key id field old old

/-- Whether a diagram is another one with what an answer has for it. It has the same nodes and
edges, in the same order, with all fields equal but for the labels and icons of nodes and the verbs
of edges, which the answer settles. -/
structure TakesOver (d : Diagram) (answer : Table Value) (new : Diagram) : Prop where
  nodes : List.Forall₂ (fun (old new : String × Node) => ∃ label icon,
      new = (old.1, { old.2 with label, icon }) ∧
        Settles answer "nodes" (.text old.2.id) "label" old.2.label label ∧
        Settles answer "nodes" (.text old.2.id) "icon" old.2.icon icon) d.nodes new.nodes
  edges : List.Forall₂ (fun old new : Edge => ∃ verb, new = { old with verb } ∧
      Settles answer "edges" old.id "verb" old.verb verb) d.edges new.edges
  others : new = { d with nodes := new.nodes, edges := new.edges }

/-! ## The last suggestion -/

/-- Whether a suggestion is for an id and has a text for a field that is not blank. -/
def suggests (id : Value) (field : String) (suggestion : Value) : Bool :=
  id.isText (suggestionId suggestion) && (suggested? suggestion field).isSome

/-- The text for a field in the last suggestion for an id that has one. -/
def lastSuggested? (given : List Value) (id : Value) (field : String) : Option Value :=
  (given.filter (suggests id field)).getLast?.bind fun suggestion => suggested? suggestion field

/-- A node with the label and the icon that were suggested last for an id. -/
def nodeAfter (given : List Value) (id : String) (node : Node) : Node :=
  { node with
    label := (lastSuggested? given (.text id) "label").getD node.label
    icon := (lastSuggested? given (.text id) "icon").getD node.icon }

/-- An edge with the verb that was suggested last for its id. -/
def edgeAfter (given : List Value) (edge : Edge) : Edge :=
  { edge with verb := (lastSuggested? given edge.id "verb").getD edge.verb }

theorem suggested?_record {fields : List (String × Value)} {field text : String} :
    suggested? (.record fields) field = some (.text text) ↔
      ∃ raw, Table.get? fields field = some (.text raw) ∧ Text.IsStripped raw text ∧ text ≠ "" := by
  simp only [suggested?, Value.field, Text.isStripped_iff]
  rcases Table.get? fields field with _ | value
  · simp
  · cases value with
    | text raw =>
      dsimp only [Option.getD_some]
      constructor
      · intro h
        split at h
        · cases h
        · next hblank =>
          cases h
          exact ⟨raw, rfl, rfl, fun hempty => hblank (Text.trimmed_eq_empty_iff.1 hempty)⟩
      · rintro ⟨_, hraw, rfl, hempty⟩
        cases hraw
        exact if_neg fun hblank => hempty (Text.trimmed_eq_empty_iff.2 hblank)
    | _ => simp

theorem exists_text_of_suggested? {suggestion v : Value} {field : String}
    (h : suggested? suggestion field = some v) : ∃ text, v = .text text := by
  unfold suggested? at h
  split at h
  · split at h
    · cases h
    · exact ⟨_, (Option.some.inj h).symm⟩
  · cases h

/-- What the entries of a list offer are the texts of the suggestions among them. -/
theorem offers_iff {entry id : Value} {field text : String} : Offers entry id field text ↔
    entry.isRecord = true ∧ id.isText (suggestionId entry) = true ∧
      suggested? entry field = some (.text text) := by
  constructor
  · rintro ⟨fields, raw, rfl, rfl, hraw, hstripped, htext⟩
    refine ⟨rfl, ?_, suggested?_record.2 ⟨raw, hraw, hstripped, htext⟩⟩
    simp [Value.isText, suggestionId, Value.field]
  · rintro ⟨hrecord, hid, htext⟩
    cases entry with
    | record fields =>
      obtain ⟨raw, hraw, hstripped, htext⟩ := suggested?_record.1 htext
      cases id with
      | text s =>
        have hs : s = suggestionId (.record fields) := by simpa [Value.isText] using hid
        exact ⟨fields, raw, rfl, hs ▸ rfl, hraw, hstripped, htext⟩
      | _ => cases hid
    | _ => cases hrecord

/-- Whether an entry of a list is a suggestion that has a text for a field of what has an id. -/
def hasOffer (id : Value) (field : String) (entry : Value) : Bool :=
  suggests id field entry && entry.isRecord

theorem hasOffer_iff {entry id : Value} {field : String} :
    hasOffer id field entry = true ↔ ∃ text, Offers entry id field text := by
  simp only [hasOffer, suggests, Bool.and_eq_true, Option.isSome_iff_exists, offers_iff]
  constructor
  · rintro ⟨⟨hid, v, hv⟩, hrecord⟩
    obtain ⟨text, rfl⟩ := exists_text_of_suggested? hv
    exact ⟨text, hrecord, hid, hv⟩
  · rintro ⟨text, hrecord, hid, htext⟩
    exact ⟨⟨hid, _, htext⟩, hrecord⟩

theorem lastSuggested?_filter (items : List Value) (id : Value) (field : String) :
    lastSuggested? (items.filter Value.isRecord) id field
      = (items.filter (hasOffer id field)).getLast?.bind fun entry => suggested? entry field := by
  rw [lastSuggested?, List.filter_filter]
  rfl

/-- The last entry that offers a text is the last suggestion that has one. -/
theorem lastSuggested?_of_taken {before after : List Value} {entry id : Value}
    {field text : String} (hoffer : Offers entry id field text)
    (hlater : ∀ later ∈ after, ∀ other, ¬ Offers later id field other) :
    lastSuggested? ((before ++ entry :: after).filter Value.isRecord) id field
      = some (.text text) := by
  have hafter : after.filter (hasOffer id field) = [] := by
    refine List.filter_eq_nil_iff.2 fun later hmem hhas => ?_
    obtain ⟨other, hother⟩ := hasOffer_iff.1 hhas
    exact hlater later hmem other hother
  rw [lastSuggested?_filter, List.filter_append, List.filter_cons_of_pos
    (hasOffer_iff.2 ⟨text, hoffer⟩), hafter, List.getLast?_concat]
  exact (offers_iff.1 hoffer).2.2

/-- Without an entry that offers a text there is no last suggestion. -/
theorem lastSuggested?_of_kept {items : List Value} {id : Value} {field : String}
    (hnone : ∀ entry ∈ items, ∀ text, ¬ Offers entry id field text) :
    lastSuggested? (items.filter Value.isRecord) id field = none := by
  rw [lastSuggested?_filter, List.filter_eq_nil_iff.2]
  · rfl
  · intro entry hmem hhas
    obtain ⟨text, htext⟩ := hasOffer_iff.1 hhas
    exact hnone entry hmem text htext

theorem suggestions_of_list {answer : Table Value} {key : String} {items : List Value}
    (h : answer.get? key = some (.list items)) :
    suggestions answer key = items.filter Value.isRecord := by
  rw [suggestions, h]

theorem suggestions_eq_nil {answer : Table Value} {key : String}
    (h : ∀ items, answer.get? key ≠ some (.list items)) : suggestions answer key = [] := by
  unfold suggestions
  split
  · next items hlist => exact absurd hlist (h items)
  · rfl

/-- What an answer settles is what was suggested last, so it settles one value. -/
theorem settles_iff {answer : Table Value} {key field : String} {id old new : Value} :
    Settles answer key id field old new ↔
      new = (lastSuggested? (suggestions answer key) id field).getD old := by
  constructor
  · rintro (⟨hlist, hoffer, hlater⟩ | hnone)
    · rw [suggestions_of_list hlist, lastSuggested?_of_taken hoffer hlater, Option.getD_some]
    · by_cases hlist : ∃ items, answer.get? key = some (.list items)
      · obtain ⟨items, hlist⟩ := hlist
        rw [suggestions_of_list hlist, lastSuggested?_of_kept (hnone items hlist), Option.getD_none]
      · rw [suggestions_eq_nil fun items h => hlist ⟨items, h⟩]
        rfl
  · rintro rfl
    by_cases hlist : ∃ items, answer.get? key = some (.list items)
    · obtain ⟨items, hlist⟩ := hlist
      rw [suggestions_of_list hlist, lastSuggested?_filter, List.getLast?_filter]
      cases hlast : items.reverse.find? (hasOffer id field) with
      | none =>
        refine .kept fun others hothers entry hentry text htext => ?_
        cases hlist.symm.trans hothers
        exact List.find?_eq_none.1 hlast entry (List.mem_reverse.2 hentry)
          (hasOffer_iff.2 ⟨text, htext⟩)
      | some entry =>
        obtain ⟨hhas, after, before, hitems, hlater⟩ := List.find?_eq_some_iff_append.1 hlast
        obtain ⟨text, htext⟩ := hasOffer_iff.1 hhas
        rw [List.reverse_eq_iff, List.reverse_append, List.reverse_cons, List.append_assoc,
          List.singleton_append] at hitems
        rw [Option.bind_some, (offers_iff.1 htext).2.2, Option.getD_some]
        refine .taken (hitems ▸ hlist) htext fun later hmem other hother => ?_
        have hnot := hlater later (List.mem_reverse.1 hmem)
        rw [hasOffer_iff.2 ⟨other, hother⟩] at hnot
        cases hnot
    · rw [suggestions_eq_nil fun items h => hlist ⟨items, h⟩]
      exact .kept fun items h => absurd ⟨items, h⟩ hlist

/-! ## Suggestions one after the other -/

variable {d : Diagram}

/-- One more suggestion decides if it is for the id and has a text. -/
theorem lastSuggested?_concat (given : List Value) (suggestion id : Value) (field : String) :
    lastSuggested? (given ++ [suggestion]) id field
      = if id.isText (suggestionId suggestion)
        then (suggested? suggestion field).or (lastSuggested? given id field)
        else lastSuggested? given id field := by
  rw [lastSuggested?, List.filter_append, List.filter_singleton, suggests]
  cases id.isText (suggestionId suggestion) with
  | false => rw [Bool.false_and, cond_false, List.append_nil]; rfl
  | true =>
    cases hfield : suggested? suggestion field with
    | none => rw [Option.isSome_none, Bool.and_false, cond_false, List.append_nil]; rfl
    | some text =>
      rw [Option.isSome_some, Bool.and_self, cond_true, List.getLast?_concat, Option.bind_some,
        hfield]
      rfl

theorem getD_or (given : Option Value) (earlier : Option Value) (old : Value) :
    (given.or earlier).getD old = given.getD (earlier.getD old) := by
  cases given <;> rfl

theorem nodeAfter_concat (given : List Value) (suggestion : Value) (id : String) (node : Node) :
    nodeAfter (given ++ [suggestion]) id node
      = if id = suggestionId suggestion then relabelNode suggestion (nodeAfter given id node)
        else nodeAfter given id node := by
  simp only [nodeAfter, lastSuggested?_concat, Value.isText, beq_iff_eq]
  split
  · rw [getD_or, getD_or]
    rfl
  · rfl

theorem edgeAfter_concat (given : List Value) (suggestion : Value) (edge : Edge) :
    edgeAfter (given ++ [suggestion]) edge
      = if edge.id.isText (suggestionId suggestion)
        then relabelEdge suggestion (edgeAfter given edge) else edgeAfter given edge := by
  simp only [edgeAfter, lastSuggested?_concat]
  split
  · rw [getD_or]
    rfl
  · rfl

theorem foldl_takeNodeSuggestion (given : List Value) (d : Diagram) :
    given.foldl takeNodeSuggestion d
      = { d with nodes := d.nodes.map fun (key, node) => (key, nodeAfter given key node) } := by
  induction given using List.reverseRecOn with
  | nil => exact congrArg (fun nodes => { d with nodes }) (List.map_id _).symm
  | append_singleton given suggestion ih =>
    rw [List.foldl_concat, ih]
    simp only [takeNodeSuggestion, List.map_map, Function.comp_def, nodeAfter_concat]

theorem foldl_takeEdgeSuggestion (given : List Value) (d : Diagram) :
    given.foldl takeEdgeSuggestion d = { d with edges := d.edges.map (edgeAfter given) } := by
  induction given using List.reverseRecOn with
  | nil => exact congrArg (fun edges => { d with edges }) (List.map_id _).symm
  | append_singleton given suggestion ih =>
    rw [List.foldl_concat, ih]
    simp only [takeEdgeSuggestion, List.map_map, Function.comp_def]
    exact congrArg (fun edges => { d with edges })
      (List.map_congr_left fun edge _ => (edgeAfter_concat given suggestion edge).symm)

/-! ## Answers -/

/-- The diagram with an answer taken over: the nodes and the edges are the same, in the same order,
with what was suggested last. -/
theorem relabelled_eq (d : Diagram) (answer : Table Value) :
    d.relabelled answer = { d with
      nodes := d.nodes.map fun (key, node) =>
        (key, nodeAfter (suggestions answer "nodes") key node)
      edges := d.edges.map (edgeAfter (suggestions answer "edges")) } := by
  rw [relabelled, foldl_takeEdgeSuggestion, foldl_takeNodeSuggestion]

theorem nodeAfter_nodeAfter (given : List Value) (id : String) (node : Node) :
    nodeAfter given id (nodeAfter given id node) = nodeAfter given id node := by
  simp only [nodeAfter, ← getD_or, Option.or_self]

theorem edgeAfter_edgeAfter (given : List Value) (edge : Edge) :
    edgeAfter given (edgeAfter given edge) = edgeAfter given edge := by
  simp only [edgeAfter, ← getD_or, Option.or_self]

/-- An answer that was taken over has nothing to add. -/
theorem relabelled_relabelled (d : Diagram) (answer : Table Value) :
    (d.relabelled answer).relabelled answer = d.relabelled answer := by
  simp only [relabelled_eq, List.map_map, Function.comp_def, nodeAfter_nodeAfter,
    edgeAfter_edgeAfter]

/-- In a well-formed diagram a node is relabelled by what was suggested for its own id. -/
theorem WellFormed.relabelled_eq (hd : d.WellFormed) (answer : Table Value) :
    d.relabelled answer = { d with
      nodes := d.nodes.map fun (key, node) =>
        (key, nodeAfter (suggestions answer "nodes") node.id node)
      edges := d.edges.map (edgeAfter (suggestions answer "edges")) } := by
  rw [Diagram.relabelled_eq]
  congr 1
  refine List.map_congr_left fun (key, node) hnode => ?_
  dsimp only
  rw [hd.id_eq_key key node hnode]

/-- A well-formed diagram takes over what the answer settles. -/
theorem WellFormed.takesOver_relabelled (hd : d.WellFormed) (answer : Table Value) :
    d.TakesOver answer (d.relabelled answer) := by
  rw [hd.relabelled_eq]
  refine ⟨?_, ?_, rfl⟩
  · refine List.forall₂_map_right_iff.2 (List.forall₂_same.2 fun (key, node) _ => ?_)
    exact ⟨_, _, rfl, settles_iff.2 rfl, settles_iff.2 rfl⟩
  · refine List.forall₂_map_right_iff.2 (List.forall₂_same.2 fun edge _ => ?_)
    exact ⟨_, rfl, settles_iff.2 rfl⟩

theorem TakesOver.exists_node {answer : Table Value} {new : Diagram} (h : d.TakesOver answer new)
    {id : String} {node : Node} (hnode : d.nodes.get? id = some node) :
    ∃ label icon, new.nodes.get? id = some { node with label, icon } ∧
      Settles answer "nodes" (.text node.id) "label" node.label label ∧
      Settles answer "nodes" (.text node.id) "icon" node.icon icon := by
  have hnodes := h.nodes
  generalize d.nodes = olds at hnode hnodes
  generalize new.nodes = news at hnodes
  induction hnodes with
  | nil => cases hnode
  | @cons old other olds news hsame _ ih =>
    obtain ⟨key, first⟩ := old
    obtain ⟨label, icon, rfl, hlabel, hicon⟩ := hsame
    rw [Table.get?_cons] at hnode ⊢
    split at hnode
    · next hkey =>
      cases hnode
      exact ⟨label, icon, if_pos hkey, hlabel, hicon⟩
    · next hkey =>
      rw [if_neg hkey]
      exact ih hnode

theorem TakesOver.exists_edge {answer : Table Value} {new : Diagram} (h : d.TakesOver answer new)
    {edge : Edge} (hedge : edge ∈ d.edges) : ∃ verb, { edge with verb } ∈ new.edges ∧
      Settles answer "edges" edge.id "verb" edge.verb verb := by
  have hedges := h.edges
  generalize d.edges = olds at hedge hedges
  generalize new.edges = news at hedges
  induction hedges with
  | nil => cases hedge
  | cons hsame _ ih =>
    obtain ⟨verb, rfl, hverb⟩ := hsame
    rcases List.mem_cons.1 hedge with rfl | hedge
    · exact ⟨verb, List.mem_cons_self, hverb⟩
    · obtain ⟨found, hfound, hsettles⟩ := ih hedge
      exact ⟨found, List.mem_cons_of_mem _ hfound, hsettles⟩

/-- Labels, icons and verbs are not written to files. -/
theorem files_relabelled (d : Diagram) (answer : Table Value) (extension : String)
    (withHeader : Bool) :
    (d.relabelled answer).files extension withHeader = d.files extension withHeader := by
  refine files_congr ?_ extension withHeader
  rw [relabelled_eq, written, written, Table.values, Table.values, List.map_map, List.map_map,
    List.map_map]
  rfl

/-- Labels, icons and verbs make no difference to the layout. -/
theorem WellFormed.drawing_relabelled (hd : d.WellFormed) (answer : Table Value)
    (options : Options) : (d.relabelled answer).drawing options = d.drawing options := by
  have hd' := hd.of_skeleton_eq (skeleton_relabelled d answer)
  exact drawing_eq_of_drawnAlike (drawnAlike_relabelled d answer).1 hd'.hasEdgeOrder
    hd.hasEdgeOrder hd'.not_isDangling hd.not_isDangling options

end Diagram

end BlockDiagram
