import BlockDiagram.Digraph.Feedback
import BlockDiagram.Proofs.Digraph.Path

/-!
# Degrees that are kept up

To line the vertices up, the links among those that are left need not be counted again and again.
They are counted once, and when a vertex is taken, those that are left lose the links that they have
to it or from it. The numbers stay right, so the vertices of a batch can be taken one after another.

* `Tally.order`: the vertices lined up by numbers that are kept up.
* `Tally.IsRight.take`, `Tally.IsRight.takeAll`: the numbers stay right.
* `Tally.IsRight.drain`: batch by batch the same vertices are taken.
* `Tally.IsRight.order_eq`: the line is the same.
-/

namespace BlockDiagram.Digraph

/-- The vertices that are left, and the numbers of links from and to each of them. -/
structure Tally where
  left : List String
  outward : String → Int
  inward : String → Int

namespace Tally

/-- The tally of a graph before any vertex is taken. -/
def start (g : Digraph) : Tally :=
  ⟨g.vertices, fun v => (g.successors v).length, fun v => (g.predecessors v).length⟩

/-- Numbers of which that of a vertex is one less, if the vertex is left. -/
def lowered (left : List String) (numbers : String → Int) (v : String) : String → Int :=
  fun u => if u = v ∧ v ∈ left then numbers u - 1 else numbers u

/-- The tally after a vertex is taken. -/
def take (g : Digraph) (t : Tally) (v : String) : Tally where
  left := t.left.erase v
  outward := (g.predecessors v).foldl (lowered (t.left.erase v)) t.outward
  inward := (g.successors v).foldl (lowered (t.left.erase v)) t.inward

def isSink (t : Tally) (v : String) : Bool := t.outward v == 0

def isSource (t : Tally) (v : String) : Bool := t.inward v == 0

/-- The first vertex of which the most links leave over those that enter. -/
def richest (t : Tally) (first : String) (others : List String) : String :=
  others.foldl (fun best v =>
    if t.outward best - t.inward best < t.outward v - t.inward v then v else best) first

/-- The tally after the vertices of a batch are taken, one after another. -/
def takeAll (g : Digraph) (t : Tally) (batch : List String) : Tally := batch.foldl (take g) t

/-- The vertices that have a property of the tally. -/
def picked (pick : Tally → String → Bool) (t : Tally) : List String := t.left.filter (pick t)

theorem length_left_takeAll_le (g : Digraph) (t : Tally) (batch : List String) :
    (t.takeAll g batch).left.length ≤ t.left.length := by
  induction batch generalizing t with
  | nil => exact Nat.le_refl _
  | cons v batch ih => exact Nat.le_trans (ih (t.take g v)) List.length_erase_le

theorem length_left_takeAll_lt {g : Digraph} {pick : Tally → String → Bool} {t : Tally}
    (h : picked pick t ≠ []) : (t.takeAll g (picked pick t)).left.length < t.left.length := by
  obtain ⟨v, batch, hbatch⟩ := List.exists_cons_of_ne_nil h
  have hv : v ∈ t.left := List.mem_of_mem_filter (hbatch ▸ List.mem_cons_self)
  have herase := List.length_erase_of_mem hv
  have hpositive := List.length_pos_of_mem hv
  rw [hbatch]
  refine Nat.lt_of_le_of_lt (length_left_takeAll_le g (t.take g v) batch) ?_
  show (t.left.erase v).length < _
  omega

/-- The batches of vertices that have a property of the tally, and the tally in the end. -/
def drain (g : Digraph) (pick : Tally → String → Bool) (t : Tally) : List (List String) × Tally :=
  if _h : picked pick t = [] then ([], t)
  else
    let (batches, last) := drain g pick (t.takeAll g (picked pick t))
    (picked pick t :: batches, last)
termination_by t.left.length
decreasing_by exact length_left_takeAll_lt _h

theorem drain_of_picked_eq_nil {g : Digraph} {pick : Tally → String → Bool} {t : Tally}
    (h : picked pick t = []) : drain g pick t = ([], t) := by
  rw [drain, dif_pos h]

theorem drain_of_picked_ne_nil {g : Digraph} {pick : Tally → String → Bool} {t : Tally}
    (h : picked pick t ≠ []) :
    drain g pick t = (picked pick t :: (drain g pick (t.takeAll g (picked pick t))).1,
      (drain g pick (t.takeAll g (picked pick t))).2) := by
  rw [drain, dif_neg h]

theorem length_left_drain_le (g : Digraph) (pick : Tally → String → Bool) (t : Tally) :
    (drain g pick t).2.left.length ≤ t.left.length := by
  induction t using drain.induct g pick with
  | case1 t hnil =>
    rw [drain_of_picked_eq_nil hnil]
  | case2 t hpicked _ _ _ ih =>
    rw [drain_of_picked_ne_nil hpicked]
    exact Nat.le_trans ih (Nat.le_of_lt (length_left_takeAll_lt hpicked))

theorem richest_mem (t : Tally) (first : String) (others : List String) :
    t.richest first others ∈ first :: others := by
  induction others generalizing first with
  | nil => exact List.mem_cons_self
  | cons v others ih =>
    have h := ih (if t.outward first - t.inward first < t.outward v - t.inward v then v else first)
    rw [richest, List.foldl_cons]
    rcases List.mem_cons.1 h with h | h
    · rw [richest] at h
      rw [h]
      split
      · exact List.mem_cons_of_mem _ List.mem_cons_self
      · exact List.mem_cons_self
    · exact List.mem_cons_of_mem _ (List.mem_cons_of_mem _ h)

/-- The vertices lined up: sinks at the end, sources at the start, and when neither is left the
richest vertex. -/
def order (g : Digraph) (t : Tally) : List String :=
  let sinks := drain g isSink t
  let sources := drain g isSource sinks.2
  let inner := match _left : sources.2.left with
    | [] => []
    | first :: others =>
      let best := sources.2.richest first others
      best :: order g (sources.2.take g best)
  sources.1.flatten ++ inner ++ sinks.1.flatten.reverse
termination_by t.left.length
decreasing_by
  have hsinks := length_left_drain_le g isSink t
  have hsources := length_left_drain_le g isSource (drain g isSink t).2
  have hmem := (drain g isSource (drain g isSink t).2).2.richest_mem first others
  have herase := List.length_erase_of_mem hmem
  simp only [sources, sinks] at _left
  rw [_left] at hsources
  show (List.erase _ _).length < _
  rw [_left, herase]
  simp only [List.length_cons] at hsources ⊢
  omega

variable {g : Digraph} {t : Tally}

theorem order_of_nil (h : (drain g isSource (drain g isSink t).2).2.left = []) :
    order g t = (drain g isSource (drain g isSink t).2).1.flatten
      ++ (drain g isSink t).1.flatten.reverse := by
  rw [order]
  dsimp only
  split
  · rw [List.append_nil]
  · next heq =>
    rw [h] at heq
    cases heq

theorem order_of_cons {first : String} {others : List String}
    (h : (drain g isSource (drain g isSink t).2).2.left = first :: others) :
    order g t = (drain g isSource (drain g isSink t).2).1.flatten
      ++ (drain g isSource (drain g isSink t).2).2.richest first others
        :: order g ((drain g isSource (drain g isSink t).2).2.take g
          ((drain g isSource (drain g isSink t).2).2.richest first others))
      ++ (drain g isSink t).1.flatten.reverse := by
  rw [order]
  dsimp only
  split
  · next heq =>
    rw [h] at heq
    cases heq
  · next heq =>
    rw [h] at heq
    cases heq
    rfl

/-! ## The numbers -/

theorem foldl_lowered {left : List String} {u : String} (hu : u ∈ left) (vs : List String)
    (numbers : String → Int) : vs.foldl (lowered left) numbers u = numbers u - vs.count u := by
  induction vs generalizing numbers with
  | nil => exact (Int.sub_zero _).symm
  | cons v vs ih =>
    rw [List.foldl_cons, ih, lowered, List.count_cons]
    by_cases h : u = v
    · subst h
      rw [if_pos ⟨rfl, hu⟩, if_pos (beq_self_eq_true u)]
      omega
    · rw [if_neg fun hand => h hand.1, if_neg fun heq => h (eq_of_beq heq).symm]
      omega

/-- A link is counted at either end. -/
theorem count_predecessors (g : Digraph) (u v : String) :
    (g.predecessors v).count u = (g.successors u).count v := by
  rw [predecessors, successors, List.count_filterMap, List.count_filterMap]
  refine List.countP_congr fun arc _ => ?_
  by_cases hfrom : arc.1 = u <;> by_cases hto : arc.2 = v <;> simp [hfrom, hto]

theorem countP_contains {left : List String} (hleft : left.Nodup) {v : String} (hv : v ∈ left)
    (vs : List String) :
    vs.countP left.contains = vs.countP (left.erase v).contains + vs.count v := by
  induction vs with
  | nil => rfl
  | cons w vs ih =>
    rw [List.countP_cons, List.countP_cons, List.count_cons, ih]
    simp only [List.contains_iff_mem, hleft.mem_erase_iff, beq_iff_eq]
    by_cases h : w = v
    · subst h
      simp only [hv, ne_eq, not_true_eq_false, false_and, if_true, if_false]
      omega
    · simp only [h, ne_eq, not_false_eq_true, true_and, if_false]
      omega

/-- The vertices that are left are distinct, and the numbers are those of the links among them. -/
structure IsRight (g : Digraph) (t : Tally) : Prop where
  nodup : t.left.Nodup
  outward : ∀ v ∈ t.left, t.outward v = g.outDegree t.left v
  inward : ∀ v ∈ t.left, t.inward v = g.inDegree t.left v

/-- Taking a vertex keeps the numbers right. -/
theorem IsRight.take (h : t.IsRight g) {v : String} (hv : v ∈ t.left) : (t.take g v).IsRight g where
  nodup := h.nodup.erase v
  outward u hu := by
    change u ∈ t.left.erase v at hu
    have hcount := countP_contains h.nodup hv (g.successors u)
    show (g.predecessors v).foldl (lowered (t.left.erase v)) t.outward u = _
    rw [foldl_lowered hu, h.outward u (List.mem_of_mem_erase hu), count_predecessors]
    show ((g.successors u).countP t.left.contains : Int) - _
      = ((g.successors u).countP (t.left.erase v).contains : Int)
    omega
  inward u hu := by
    change u ∈ t.left.erase v at hu
    have hcount := countP_contains h.nodup hv (g.predecessors u)
    show (g.successors v).foldl (lowered (t.left.erase v)) t.inward u = _
    rw [foldl_lowered hu, h.inward u (List.mem_of_mem_erase hu), ← count_predecessors]
    show ((g.predecessors u).countP t.left.contains : Int) - _
      = ((g.predecessors u).countP (t.left.erase v).contains : Int)
    omega

/-- So does taking a batch, which leaves the vertices that are not in it. -/
theorem IsRight.takeAll (h : t.IsRight g) {batch : List String} (hbatch : batch.Nodup)
    (hmem : ∀ v ∈ batch, v ∈ t.left) : (t.takeAll g batch).IsRight g ∧
      (t.takeAll g batch).left = t.left.filter fun v => !batch.contains v := by
  induction batch generalizing t with
  | nil => exact ⟨h, (List.filter_eq_self.2 fun _ _ => rfl).symm⟩
  | cons v batch ih =>
    obtain ⟨hv, hbatch⟩ := List.nodup_cons.1 hbatch
    have hrest : ∀ w ∈ batch, w ∈ (t.take g v).left := by
      intro w hw
      refine (List.mem_erase_of_ne ?_).2 (hmem w (List.mem_cons_of_mem _ hw))
      rintro rfl
      exact hv hw
    obtain ⟨hright, hleft⟩ := ih (h.take (hmem v List.mem_cons_self)) hbatch hrest
    refine ⟨hright, hleft.trans ?_⟩
    show (t.left.erase v).filter _ = _
    rw [h.nodup.erase_eq_filter, List.filter_filter]
    refine List.filter_congr fun w _ => ?_
    rw [List.contains_cons, Bool.not_or, Bool.and_comm]
    rfl

theorem IsRight.isSink_eq (h : t.IsRight g) {v : String} (hv : v ∈ t.left) :
    t.isSink v = g.isSink t.left v := by
  rw [isSink, Digraph.isSink, h.outward v hv, Bool.eq_iff_iff, beq_iff_eq, beq_iff_eq]
  exact Int.natCast_eq_zero

theorem IsRight.isSource_eq (h : t.IsRight g) {v : String} (hv : v ∈ t.left) :
    t.isSource v = g.isSource t.left v := by
  rw [isSource, Digraph.isSource, h.inward v hv, Bool.eq_iff_iff, beq_iff_eq, beq_iff_eq]
  exact Int.natCast_eq_zero

/-! ## The line -/

variable {pickLeft : Tally → String → Bool} {pick : List String → String → Bool}

/-- A batch taken one vertex after another leaves what it leaves when it is taken at once. -/
theorem IsRight.takePicked
    (hpick : ∀ t : Tally, t.IsRight g → ∀ v ∈ t.left, pickLeft t v = pick t.left v)
    (h : t.IsRight g) : (t.takeAll g (picked pickLeft t)).IsRight g ∧
      (t.takeAll g (picked pickLeft t)).left = unpicked pick t.left := by
  have hbatch : (picked pickLeft t).Nodup := h.nodup.filter _
  obtain ⟨hright, hleft⟩ := h.takeAll hbatch fun v hv => List.mem_of_mem_filter hv
  refine ⟨hright, hleft.trans (List.filter_congr fun v hv => ?_)⟩
  have hcontains : (picked pickLeft t).contains v = pickLeft t v := by
    rw [Bool.eq_iff_iff, List.contains_iff_mem, picked, List.mem_filter]
    exact and_iff_right hv
  rw [hcontains, hpick t h v hv]

/-- Batches that are taken one vertex after another are those that are taken at once. -/
theorem IsRight.drain
    (hpick : ∀ t : Tally, t.IsRight g → ∀ v ∈ t.left, pickLeft t v = pick t.left v)
    (h : t.IsRight g) : (drain g pickLeft t).1 = (peel pick t.left).1 ∧
      (Tally.drain g pickLeft t).2.left = (peel pick t.left).2 ∧
      (Tally.drain g pickLeft t).2.IsRight g := by
  induction t using drain.induct g pickLeft with
  | case1 t hnil =>
    have hpicked : picked pickLeft t = Digraph.picked pick t.left := List.filter_congr (hpick t h)
    rw [drain_of_picked_eq_nil hnil, peel_of_picked_eq_nil (hpicked ▸ hnil)]
    exact ⟨rfl, rfl, h⟩
  | case2 t hne _ _ _ ih =>
    have hpicked : picked pickLeft t = Digraph.picked pick t.left := List.filter_congr (hpick t h)
    obtain ⟨hright, hleft⟩ := h.takePicked hpick
    obtain ⟨hbatches, hlast, hkept⟩ := ih hright
    rw [hleft] at hbatches hlast
    rw [drain_of_picked_ne_nil hne, peel_of_picked_ne_nil (hpicked ▸ hne), hbatches, hpicked]
    exact ⟨rfl, hpicked ▸ hlast, hpicked ▸ hkept⟩

theorem IsRight.richest_eq (h : t.IsRight g) {first : String} {others : List String}
    (hleft : t.left = first :: others) :
    t.richest first others = g.richest (first :: others) first others := by
  have hsurplus : ∀ v ∈ t.left, t.outward v - t.inward v = g.surplus (first :: others) v := by
    intro v hv
    rw [h.outward v hv, h.inward v hv, hleft]
    rfl
  rw [hleft] at hsurplus
  suffices hfold : ∀ best ∈ first :: others, ∀ vs, (∀ v ∈ vs, v ∈ first :: others) →
      t.richest best vs = g.richest (first :: others) best vs from
    hfold first List.mem_cons_self others fun v hv => List.mem_cons_of_mem _ hv
  intro best hbest vs hvs
  induction vs generalizing best with
  | nil => rfl
  | cons v vs ih =>
    have hv := hvs v List.mem_cons_self
    have hrest := fun w hw => hvs w (List.mem_cons_of_mem _ hw)
    rw [richest, Digraph.richest, List.foldl_cons, List.foldl_cons, hsurplus best hbest,
      hsurplus v hv]
    split
    · exact ih v hv hrest
    · exact ih best hbest hrest

/-- With the right numbers the vertices that are left are lined up as they are by counting. -/
theorem IsRight.order_eq (h : t.IsRight g) : order g t = g.greedyOrder t.left := by
  induction t using order.induct g with
  | case1 t sinks sources ih =>
    simp only [sources, sinks] at ih
    obtain ⟨hsinks, hsinksLeft, hafterSinks⟩ := h.drain fun _ h _ hv => h.isSink_eq hv
    obtain ⟨hsources, hsourcesLeft, hafter⟩ := hafterSinks.drain fun _ h _ hv => h.isSource_eq hv
    rw [hsinksLeft] at hsources hsourcesLeft
    cases hleft : (peel g.isSource (peel g.isSink t.left).2).2 with
    | nil =>
      rw [order_of_nil (hsourcesLeft.trans hleft), greedyOrder_of_nil hleft, hsources, hsinks]
    | cons first others =>
      have hcons := hsourcesLeft.trans hleft
      have hrichest := hafter.richest_eq hcons
      have hmem := richest_mem (Tally.drain g isSource (Tally.drain g isSink t).2).2 first others
      rw [← hcons] at hmem
      have hinner := ih first others hcons (hafter.take hmem)
      have hrest : ((Tally.drain g isSource (Tally.drain g isSink t).2).2.take g
          (g.richest (first :: others) first others)).left
            = (first :: others).erase (g.richest (first :: others) first others) :=
        congrArg (List.erase · _) hcons
      rw [order_of_cons hcons, greedyOrder_of_cons hleft, hsources, hsinks, hinner, hrichest, hrest]

/-- The numbers of links are right at the start. -/
theorem isRight_start (hvertices : g.vertices.Nodup) (hclosed : g.IsClosed) :
    (start g).IsRight g where
  nodup := hvertices
  outward v _ := by
    refine congrArg Int.ofNat (List.countP_eq_length.2 fun w hw => ?_).symm
    exact List.contains_iff_mem.2 (hclosed v w (mem_successors.1 hw)).2
  inward v _ := by
    refine congrArg Int.ofNat (List.countP_eq_length.2 fun w hw => ?_).symm
    exact List.contains_iff_mem.2 (hclosed w v (mem_predecessors.1 hw)).1

end Tally

end BlockDiagram.Digraph
