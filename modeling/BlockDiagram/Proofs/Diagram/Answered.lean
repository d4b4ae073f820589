import BlockDiagram.Proofs.Diagram.WellFormed

/-!
# What edits answer

An edit is answered if it succeeds, or is refused because its input is invalid, because what it
addresses is missing, or because the result has no layout. Every check of a payload refuses what it
does not accept, with three exceptions. A patch of a node that holds a kind which does not count as
given, and no kind under the older key, is looked up under that key. An id that is no key, and a
reference to an edge that is no text, have no meaning where they are looked up.

* `IsAnswered`, `IsAnswered.bind`: answered steps one after the other.
* `Payload.isAnswered_node`, `Payload.isAnswered_options`: the checks of whole payloads.
* `Diagram.isAnswered_withNodeChanged_iff`: when a patch of a node is answered.
-/

namespace BlockDiagram

open Outcome

variable {α β : Type}

/-- Whether a failure refuses an edit. -/
def Error.isRefusal : Error → Bool
  | invalid _ => true
  | missing _ => true
  | unlaid _ => true
  | unwritable _ => false
  | defect _ => false

/-- A step that succeeds or is refused. -/
def IsAnswered (outcome : Except Error α) : Prop := ∀ e, outcome = .error e → e.isRefusal = true

theorem isAnswered_ok (a : α) : IsAnswered (.ok a) := by
  rintro e ⟨⟩

theorem isAnswered_error {e : Error} (h : e.isRefusal = true) :
    IsAnswered (.error e : Except Error α) := by
  rintro _ ⟨⟩
  exact h

theorem not_isAnswered_error {e : Error} (h : e.isRefusal = false) :
    ¬ IsAnswered (.error e : Except Error α) := by
  intro hanswered
  rw [hanswered e rfl] at h
  cases h

theorem IsAnswered.bind {x : Except Error α} {f : α → Except Error β} (hx : IsAnswered x)
    (hf : ∀ a, x = .ok a → IsAnswered (f a)) : IsAnswered (x >>= f) := by
  cases x with
  | error e => exact isAnswered_error (hx e rfl)
  | ok a => exact hf a rfl

theorem isAnswered_ite {c : Prop} [Decidable c] {x y : Except Error α} (hx : IsAnswered x)
    (hy : IsAnswered y) : IsAnswered (if c then x else y) := by
  split
  · exact hx
  · exact hy

/-- A first step that is not answered is the answer of all. -/
theorem isAnswered_bind_iff {x : Except Error α} {f : α → Except Error β}
    (hf : ∀ a, x = .ok a → IsAnswered (f a)) : IsAnswered (x >>= f) ↔ IsAnswered x := by
  refine ⟨fun h e he => ?_, fun h => h.bind hf⟩
  subst he
  exact h e rfl

/-- Items that are folded in are answered if each one is, after the ones before it. -/
theorem isAnswered_foldlM_iff {f : β → α → Except Error β} {items : List α} {b : β} :
    IsAnswered (items.foldlM f b) ↔ ∀ before a after c, items = before ++ a :: after →
      before.foldlM f b = .ok c → IsAnswered (f c a) := by
  induction items generalizing b with
  | nil =>
    refine iff_of_true (isAnswered_ok b) fun before a after _ h => ?_
    cases before <;> cases h
  | cons first rest ih =>
    rw [List.foldlM_cons]
    constructor
    · intro h before a after c hsplit hbefore
      cases before with
      | nil =>
        cases hbefore
        cases hsplit
        exact fun e he => h e (by rw [he]; rfl)
      | cons first before =>
        cases hsplit
        rw [List.foldlM_cons] at hbefore
        obtain ⟨d, hd, hbefore⟩ := bind_eq_ok.1 hbefore
        rw [hd] at h
        exact ih.1 h before a after c rfl hbefore
    · intro h
      refine (h [] first rest b rfl rfl).bind fun d hd => ih.2 ?_
      intro before a after c hsplit hbefore
      refine h (first :: before) a after c (by rw [hsplit, List.cons_append]) ?_
      rw [List.foldlM_cons, hd]
      exact hbefore

theorem isAnswered_forM {f : α → Except Error Unit} {items : List α}
    (h : ∀ a ∈ items, IsAnswered (f a)) : IsAnswered (items.forM f) := by
  induction items with
  | nil => exact isAnswered_ok ()
  | cons a rest ih =>
    show IsAnswered (f a >>= fun _ => rest.forM f)
    exact (h a List.mem_cons_self).bind fun _ _ => ih fun a ha => h a (List.mem_cons_of_mem _ ha)

/-! ## Payloads -/

namespace Payload

variable (p : Payload)

theorem isAnswered_ofValue (spellings : Table String) (value : Value) :
    IsAnswered (ofValue spellings value) := by
  cases value with
  | record fields => exact isAnswered_ok _
  | _ => exact isAnswered_error rfl

theorem isAnswered_checkNumber (key : String) : IsAnswered (p.checkNumber key) :=
  isAnswered_ite (isAnswered_ok ()) (isAnswered_error rfl)

theorem isAnswered_checkSize (key : String) : IsAnswered (p.checkSize key) :=
  (p.isAnswered_checkNumber key).bind fun _ _ =>
    isAnswered_ite (isAnswered_error rfl) (isAnswered_ok ())

theorem isAnswered_checkSpacing (key : String) : IsAnswered (p.checkSpacing key) :=
  (p.isAnswered_checkNumber key).bind fun _ _ =>
    isAnswered_ite (isAnswered_error rfl) (isAnswered_ok ())

theorem isAnswered_kind (value : Value) : IsAnswered (kind value) := by
  unfold kind
  split
  · split
    · exact isAnswered_ok _
    · exact isAnswered_error rfl
  · exact isAnswered_error rfl

theorem isAnswered_nodeKind : IsAnswered p.nodeKind :=
  isAnswered_ite (isAnswered_error rfl) (isAnswered_kind _)

theorem isAnswered_nodeName : IsAnswered p.nodeName := by
  unfold nodeName
  dsimp only
  split
  · exact isAnswered_ok _
  · exact isAnswered_error rfl

theorem isAnswered_nodeType (kind : Kind) : IsAnswered (p.nodeType kind) := by
  refine isAnswered_ite ?_ (isAnswered_ok _)
  split
  · exact isAnswered_ok _
  · exact isAnswered_error rfl

theorem isAnswered_node (value : Value) : IsAnswered (node value) := by
  refine (isAnswered_ofValue _ value).bind fun p _ => ?_
  refine p.isAnswered_nodeKind.bind fun kind _ => ?_
  refine p.isAnswered_nodeName.bind fun name _ => ?_
  refine (p.isAnswered_nodeType kind).bind fun type _ => ?_
  refine isAnswered_ite (isAnswered_error rfl) (isAnswered_ite (isAnswered_error rfl) ?_)
  refine (p.isAnswered_checkNumber "x").bind fun _ _ => ?_
  refine (p.isAnswered_checkNumber "y").bind fun _ _ => ?_
  refine (p.isAnswered_checkSize "width").bind fun _ _ => ?_
  exact (p.isAnswered_checkSize "height").bind fun _ _ => isAnswered_ok _

theorem isAnswered_edgeType (value : Value) : IsAnswered (edgeType value) := by
  refine isAnswered_ite (isAnswered_ok _) ?_
  split
  · exact isAnswered_ok _
  · exact isAnswered_error rfl

theorem isAnswered_direction (base : Direction) : IsAnswered (p.direction base) := by
  refine isAnswered_ite (isAnswered_ok _) ?_
  split
  · exact isAnswered_ok _
  · exact isAnswered_error rfl

theorem isAnswered_spacing (key : String) (base : Value) : IsAnswered (p.spacing key base) :=
  (p.isAnswered_checkSpacing key).bind fun _ _ => isAnswered_ok _

theorem isAnswered_options (value : Value) (base : Options) : IsAnswered (options value base) := by
  refine isAnswered_ite ?_ (isAnswered_ok _)
  refine (isAnswered_ofValue _ value).bind fun p _ => ?_
  refine (p.isAnswered_direction _).bind fun _ _ => ?_
  refine (p.isAnswered_spacing _ _).bind fun _ _ => ?_
  refine (p.isAnswered_spacing _ _).bind fun _ _ => ?_
  refine (p.isAnswered_spacing _ _).bind fun _ _ => ?_
  exact (p.isAnswered_spacing _ _).bind fun _ _ => isAnswered_ok _

/-- Whether the kind in a patch of a node does not count as given, and there is none under the older
key. -/
def voidsKind : Bool := p.has "kind" && !(p.entry "kind").isTruthy && !p.has "type"

end Payload

/-! ## Edits -/

namespace Diagram

variable (d : Diagram)

theorem isAnswered_laidOut (options : Options) : IsAnswered (d.laidOut options) := by
  unfold laidOut
  split
  · exact isAnswered_ok _
  · exact isAnswered_error rfl

theorem isAnswered_refreshed : IsAnswered d.refreshed := d.isAnswered_laidOut d.options

theorem isAnswered_withOptions (payload : Value) : IsAnswered (d.withOptions payload) :=
  (Payload.isAnswered_options payload _).bind fun _ _ => d.isAnswered_laidOut _

theorem isAnswered_withNode (payload : Value) : IsAnswered (d.withNode payload) := by
  refine IsAnswered.bind ?_ fun changed _ => changed.isAnswered_refreshed
  refine (Payload.isAnswered_node payload).bind fun node _ => ?_
  split
  · exact isAnswered_error rfl
  · exact isAnswered_ok _

/-- A node is found or missing under every id that is a key. -/
theorem isAnswered_nodeAt_iff (id : Value) : IsAnswered (d.nodeAt id) ↔ id.isKey = true := by
  unfold nodeAt
  split
  · refine iff_of_true ?_ rfl
    split
    · exact isAnswered_ok _
    · exact isAnswered_error rfl
  · cases hkey : id.isKey with
    | false => exact iff_of_false (not_isAnswered_error rfl) Bool.false_ne_true
    | true => exact iff_of_true (isAnswered_error rfl) rfl

theorem isAnswered_withoutNode_iff (id : Value) :
    IsAnswered (d.withoutNode id) ↔ id.isKey = true := by
  rw [← d.isAnswered_nodeAt_iff]
  exact isAnswered_bind_iff fun _ _ => isAnswered_refreshed _

theorem isAnswered_checkKind_iff (p : Payload) (node : Node) :
    IsAnswered (checkKind p node) ↔ p.voidsKind = false := by
  unfold checkKind
  dsimp only
  cases hvoid : !(p.entry "kind").isTruthy && !p.has "type" with
  | true =>
    rw [Payload.voidsKind, Bool.and_assoc, hvoid, Bool.and_true]
    rw [Bool.and_eq_true, Bool.not_eq_true', Bool.not_eq_true'] at hvoid
    rw [hvoid.2, Bool.or_false]
    cases p.has "kind" with
    | true => exact iff_of_false (not_isAnswered_error rfl) Bool.noConfusion
    | false => exact iff_of_true (isAnswered_ok ()) rfl
  | false =>
    rw [Payload.voidsKind, Bool.and_assoc, hvoid, Bool.and_false]
    refine iff_of_true (isAnswered_ite ?_ (isAnswered_ok ())) rfl
    refine (Payload.isAnswered_kind _).bind fun _ _ => ?_
    exact isAnswered_ite (isAnswered_error rfl) (isAnswered_ok ())

theorem isAnswered_checkIdentity (p : Payload) (key : String) (current : Option String) :
    IsAnswered (checkIdentity p key current) := by
  unfold checkIdentity
  split
  · exact isAnswered_ite (isAnswered_ok ()) (isAnswered_error rfl)
  · exact isAnswered_ok ()

theorem isAnswered_checkGiven (p : Payload) (key : String) : IsAnswered (checkGiven p key) :=
  isAnswered_ite (isAnswered_error rfl) (isAnswered_ok ())

/-- A patch of a node is answered unless it gets as far as its kind, which is void. -/
theorem isAnswered_nodePatch_iff (node : Node) (id : String) (payload : Value) :
    IsAnswered (nodePatch node id payload) ↔ ∀ p,
      Payload.ofValue Payload.nodeSpellings payload = .ok p →
      p.contradicts "id" (.text id) = false → p.voidsKind = false := by
  unfold nodePatch
  cases hp : Payload.ofValue Payload.nodeSpellings payload with
  | error e =>
    refine iff_of_true ?_ (by rintro _ ⟨⟩)
    exact isAnswered_error (Payload.isAnswered_ofValue _ _ e hp)
  | ok p =>
    show IsAnswered (if p.contradicts "id" (.text id) then _ else _) ↔ _
    cases hid : p.contradicts "id" (.text id) with
    | true =>
      refine iff_of_true (isAnswered_error rfl) ?_
      rintro _ ⟨⟩ hsame
      rw [hid] at hsame
      cases hsame
    | false =>
      have hkind : (∀ q, Except.ok p = (.ok q : Except Error Payload) →
          q.contradicts "id" (.text id) = false → q.voidsKind = false) ↔ p.voidsKind = false :=
        ⟨fun h => h p rfl hid, by rintro h _ ⟨⟩ -; exact h⟩
      rw [hkind, ← isAnswered_checkKind_iff p node]
      refine isAnswered_bind_iff fun _ _ => ?_
      refine isAnswered_ite (isAnswered_error rfl) ?_
      refine (isAnswered_checkIdentity _ _ _).bind fun _ _ => ?_
      refine (isAnswered_checkIdentity _ _ _).bind fun _ _ => ?_
      refine isAnswered_ite (isAnswered_error rfl) ?_
      refine (isAnswered_forM fun key _ => isAnswered_checkGiven _ key).bind fun _ _ => ?_
      refine (Payload.isAnswered_checkNumber _ "x").bind fun _ _ => ?_
      refine (Payload.isAnswered_checkNumber _ "y").bind fun _ _ => ?_
      refine (Payload.isAnswered_checkSize _ "width").bind fun _ _ => ?_
      exact (Payload.isAnswered_checkSize _ "height").bind fun _ _ => isAnswered_ok _

/-- A patch of a node is answered if the id is a key and, where there is such a node, the patch does
not void the kind. -/
theorem isAnswered_withNodeChanged_iff (id payload : Value) (relayout : Bool) :
    IsAnswered (d.withNodeChanged id payload relayout) ↔ id.isKey = true ∧ ∀ key node p,
      d.nodeAt id = .ok (key, node) → Payload.ofValue Payload.nodeSpellings payload = .ok p →
      p.contradicts "id" id = false → p.voidsKind = false := by
  rw [← d.isAnswered_nodeAt_iff]
  unfold withNodeChanged
  cases hnode : d.nodeAt id with
  | error e =>
    refine (isAnswered_bind_iff ?_).trans (and_iff_left ?_).symm
    · rintro _ ⟨⟩
    · rintro _ _ _ ⟨⟩
  | ok found =>
    obtain ⟨key, node⟩ := found
    obtain ⟨rfl, -⟩ := nodeAt_eq_ok hnode
    refine Iff.trans (b := IsAnswered (nodePatch node key payload)) ?_ ?_
    · show IsAnswered (nodePatch node key payload >>= _) ↔ _
      refine isAnswered_bind_iff fun changes _ => ?_
      exact isAnswered_ite (isAnswered_ok _) (isAnswered_refreshed _)
    · rw [isAnswered_nodePatch_iff]
      refine ⟨fun h => ⟨isAnswered_ok _, ?_⟩, fun h p => h.2 key node p rfl⟩
      rintro _ _ p ⟨⟩
      exact h p

/-! ## Edges -/

theorem isAnswered_resolvePair (ref : String) : IsAnswered (d.resolvePair ref) := by
  unfold resolvePair
  split
  · split
    · exact isAnswered_error rfl
    · exact isAnswered_ok _
    · exact isAnswered_error rfl
  · exact isAnswered_error rfl

/-- Where the ids of edges are texts, just those references are answered that are texts too. -/
theorem isAnswered_resolve_iff (hids : ∀ e ∈ d.edges, ∃ s, e.id = .text s) (ref : Value) :
    IsAnswered (d.resolve ref) ↔ ∃ s, ref = .text s := by
  unfold resolve
  split
  · next edge hedge =>
    obtain ⟨s, hs⟩ := hids edge (List.mem_of_find?_eq_some hedge)
    have hsame := List.find?_some hedge
    rw [hs] at hsame
    refine iff_of_true (isAnswered_ok _) ⟨s, ?_⟩
    cases ref with
    | text t => rw [eq_of_beq hsame]
    | _ => cases hsame
  · split
    · next s _ => exact iff_of_true (d.isAnswered_resolvePair s) ⟨s, rfl⟩
    · next hnot =>
      refine iff_of_false (not_isAnswered_error rfl) ?_
      rintro ⟨s, rfl⟩
      exact hnot s rfl

theorem isAnswered_endpointOf (p : Payload) (role : Endpoint) (key : String) :
    IsAnswered (endpointOf p role key) := by
  unfold endpointOf
  split
  · exact isAnswered_ok _
  · exact isAnswered_error rfl

theorem isAnswered_checkEndpoint (role : Endpoint) (id : String) :
    IsAnswered (d.checkEndpoint role id) :=
  isAnswered_ite (isAnswered_ok ()) (isAnswered_error rfl)

theorem isAnswered_withEdge (payload : Value) : IsAnswered (d.withEdge payload) := by
  refine IsAnswered.bind ?_ fun changed _ => changed.isAnswered_refreshed
  refine (Payload.isAnswered_ofValue _ payload).bind fun p _ => ?_
  refine (isAnswered_endpointOf p _ _).bind fun source _ => ?_
  refine (isAnswered_endpointOf p _ _).bind fun target _ => ?_
  refine (d.isAnswered_checkEndpoint _ source).bind fun _ _ => ?_
  refine (d.isAnswered_checkEndpoint _ target).bind fun _ _ => ?_
  exact (Payload.isAnswered_edgeType _).bind fun _ _ => isAnswered_ok _

theorem isAnswered_checkSameEndpoint (p : Payload) (role : Endpoint) (key : String) (edge : Edge) :
    IsAnswered (checkSameEndpoint p role key edge) :=
  isAnswered_ite (isAnswered_error rfl) (isAnswered_ok ())

theorem isAnswered_patchEdge (edge : Edge) (payload : Value) :
    IsAnswered (patchEdge edge payload) := by
  refine (Payload.isAnswered_ofValue _ payload).bind fun p _ => ?_
  refine (isAnswered_checkSameEndpoint p _ _ edge).bind fun _ _ => ?_
  refine (isAnswered_checkSameEndpoint p _ _ edge).bind fun _ _ => ?_
  refine isAnswered_ite (isAnswered_error rfl) (isAnswered_ite (isAnswered_error rfl) ?_)
  dsimp only
  split
  · exact (Payload.isAnswered_edgeType _).bind fun _ _ => isAnswered_ok _
  · exact isAnswered_ok _

theorem isAnswered_withEdgeChanged_iff (ref payload : Value) :
    IsAnswered (d.withEdgeChanged ref payload) ↔ IsAnswered (d.resolve ref) :=
  isAnswered_bind_iff fun edge _ =>
    (isAnswered_patchEdge edge payload).bind fun _ _ => isAnswered_refreshed _

theorem isAnswered_withoutEdge_iff (ref : Value) :
    IsAnswered (d.withoutEdge ref) ↔ IsAnswered (d.resolve ref) :=
  isAnswered_bind_iff fun _ _ => isAnswered_refreshed _

end Diagram

end BlockDiagram
