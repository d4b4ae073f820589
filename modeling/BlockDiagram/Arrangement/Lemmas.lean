import BlockDiagram.Arrangement
import BlockDiagram.Outcome

/-!
# What is arranged

Arranging a list loses nothing and adds nothing, and fails only if a comparison does.

* `Arrangement.perm_ofList`: the result is a permutation of the list.
* `Arrangement.exists_ofList`: there is a result if any two items of the list can be compared.
-/

namespace BlockDiagram.Arrangement

open Outcome

variable {α ε β γ : Type}

variable {before : α → α → Except ε Bool}

/-! ## Permutations -/

namespace Merging

/-- All items of a merge, put out or left. -/
def all (m : Merging α) : List α := m.out ++ (m.xs ++ m.ys)

theorem perm_takeX (count : Nat) (m : Merging α) : (m.takeX count).all.Perm m.all := by
  have h : ((m.xs.take count).reverse ++ m.out ++ (m.xs.drop count ++ m.ys)).Perm
      (m.out ++ ((m.xs.take count ++ m.xs.drop count) ++ m.ys)) := by
    rw [List.append_assoc, List.append_assoc (m.xs.take count)]
    refine List.perm_append_comm_assoc _ _ _ |>.trans ?_
    exact ((List.reverse_perm _).append_right _).append_left _
  rwa [List.take_append_drop] at h

theorem perm_takeY (count : Nat) (m : Merging α) : (m.takeY count).all.Perm m.all := by
  have h : ((m.ys.take count).reverse ++ m.out ++ (m.xs ++ m.ys.drop count)).Perm
      (m.out ++ (m.xs ++ (m.ys.take count ++ m.ys.drop count))) := by
    rw [List.append_assoc]
    refine List.perm_append_comm_assoc _ _ _ |>.trans (List.Perm.append_left _ ?_)
    refine List.perm_append_comm_assoc _ _ _ |>.trans (List.Perm.append_left _ ?_)
    exact (List.reverse_perm _).append_right _
  rwa [List.take_append_drop] at h

theorem perm_finished (mirrored : Bool) (m : Merging α) : (m.finished mirrored).Perm m.all := by
  refine List.Perm.append (List.reverse_perm _) ?_
  split
  · exact List.Perm.refl _
  · exact List.perm_append_comm

end Merging

theorem perm_round {mirrored : Bool} {goesFirst : α → α → Except ε Bool} {m : Merging α}
    {result : Merging α × Bool} (h : round mirrored goesFirst m = .ok result) :
    result.1.all.Perm m.all := by
  unfold round at h
  split at h
  · cases h
    exact List.Perm.refl _
  · cases h
    exact List.Perm.refl _
  · obtain ⟨count, _, h⟩ := bind_eq_ok.1 h
    have hfirst := m.perm_takeX count
    dsimp only at h
    split at h
    · cases h
      exact hfirst
    · have hsecond := ((m.takeX count).perm_takeY 1).trans hfirst
      split at h
      · cases h
        exact hsecond
      · split at h
        · cases h
          exact hsecond
        · obtain ⟨other, _, h⟩ := bind_eq_ok.1 h
          have hthird := (((m.takeX count).takeY 1).perm_takeY other).trans hsecond
          split at h
          · cases h
            exact hthird
          · cases h
            exact (Merging.perm_takeX 1 _).trans hthird

theorem perm_mergeWithin {mirrored : Bool} {goesFirst : α → α → Except ε Bool} {steps : Nat}
    {mode : Mode} {threshold : Nat} {m : Merging α} {result : List α × Nat}
    (h : mergeWithin mirrored goesFirst steps mode threshold m = .ok result) :
    result.1.Perm m.all := by
  induction steps generalizing mode threshold m with
  | zero =>
    cases h
    exact m.perm_finished mirrored
  | succ steps ih =>
    match mode with
    | .counting givenX givenY =>
      unfold mergeWithin at h
      split at h
      · obtain ⟨isY, _, h⟩ := bind_eq_ok.1 h
        have htaken : (if isY then m.takeY 1 else m.takeX 1).all.Perm m.all := by
          split
          · exact m.perm_takeY 1
          · exact m.perm_takeX 1
        dsimp only at h
        generalize (if isY then m.takeY 1 else m.takeX 1) = taken at h htaken
        split at h
        · cases h
          exact (taken.perm_finished mirrored).trans htaken
        · exact (ih h).trans htaken
      · cases h
        exact m.perm_finished mirrored
    | .leaping again =>
      unfold mergeWithin at h
      obtain ⟨⟨after, isLong⟩, hround, h⟩ := bind_eq_ok.1 h
      have htaken : after.all.Perm m.all := perm_round hround
      dsimp only at h
      split at h
      · cases h
        exact (after.perm_finished mirrored).trans htaken
      · split at h
        · exact (ih h).trans htaken
        · exact (ih h).trans htaken

theorem perm_mergeAfter {mirrored : Bool} {goesFirst : α → α → Except ε Bool} {threshold : Nat}
    {m : Merging α} {result : List α × Nat}
    (h : mergeAfter mirrored goesFirst threshold m = .ok result) : result.1.Perm m.all := by
  unfold mergeAfter at h
  split at h
  · cases h
    exact m.perm_finished mirrored
  · exact perm_mergeWithin h

theorem perm_mergeForward {threshold : Nat} {xs ys : List α} {result : List α × Nat}
    (h : mergeForward before threshold xs ys = .ok result) : result.1.Perm (xs ++ ys) :=
  (perm_mergeAfter h).trans (Merging.perm_takeY 1 _)

theorem perm_mergeBackward {threshold : Nat} {xs ys : List α} {result : List α × Nat}
    (h : mergeBackward before threshold xs ys = .ok result) : result.1.Perm (xs ++ ys) := by
  obtain ⟨merged, hmerged, h⟩ := bind_eq_ok.1 h
  cases h
  refine (List.reverse_perm _).trans ((perm_mergeAfter hmerged).trans ?_)
  refine (Merging.perm_takeX 1 _).trans ?_
  exact (List.reverse_perm xs).append (List.reverse_perm ys)

theorem perm_of_inner {front inner : Nat} {xs ys merged : List α}
    (h : merged.Perm (xs.drop front ++ ys.take inner)) :
    (xs.take front ++ merged ++ ys.drop inner).Perm (xs ++ ys) := by
  refine ((h.append_left _).append_right _).trans (.of_eq ?_)
  rw [← List.append_assoc, List.take_append_drop, List.append_assoc, List.take_append_drop]

theorem perm_merge {threshold : Nat} {xs ys : List α} {result : List α × Nat}
    (h : merge before threshold xs ys = .ok result) : result.1.Perm (xs ++ ys) := by
  unfold merge at h
  split at h
  · cases h
    simp
  · next y rest =>
    obtain ⟨front, _, h⟩ := bind_eq_ok.1 h
    split at h
    · cases h
      exact List.Perm.refl _
    · obtain ⟨back, _, h⟩ := bind_eq_ok.1 h
      generalize (y :: rest).length - back = inner at h
      dsimp only at h
      split at h
      · cases h
        exact List.Perm.refl _
      · split at h
        · obtain ⟨merged, hmerged, h⟩ := bind_eq_ok.1 h
          cases h
          exact perm_of_inner (perm_mergeForward hmerged)
        · obtain ⟨merged, hmerged, h⟩ := bind_eq_ok.1 h
          cases h
          exact perm_of_inner (perm_mergeBackward hmerged)

theorem perm_placed {item : α} {arranged result : List α}
    (h : placed before item arranged = .ok result) : result.Perm (item :: arranged) := by
  obtain ⟨count, _, h⟩ := bind_eq_ok.1 h
  cases h
  refine List.perm_middle.trans (List.Perm.cons item (.of_eq ?_))
  exact List.take_append_drop _ _

theorem perm_foldlM_placed {items arranged result : List α}
    (h : items.foldlM (fun arranged item => placed before item arranged) arranged = .ok result) :
    result.Perm (arranged ++ items) := by
  induction items generalizing arranged with
  | nil =>
    cases h
    simp
  | cons item items ih =>
    rw [List.foldlM_cons] at h
    obtain ⟨next, hnext, h⟩ := bind_eq_ok.1 h
    exact (ih h).trans (((perm_placed hnext).append_right items).trans List.perm_middle.symm)

theorem perm_longRun {least : Nat} {first : α} {others : List α} {result : List α × Nat}
    (h : longRun before least first others = .ok result) :
    result.1.Perm (first :: others.take result.2) := by
  obtain ⟨⟨falling, count⟩, _, h⟩ := bind_eq_ok.1 h
  obtain ⟨filled, hfilled, h⟩ := bind_eq_ok.1 h
  cases h
  refine (perm_foldlM_placed hfilled).trans ?_
  have hfound : (if falling then (first :: others.take count).reverse
      else first :: others.take count).Perm (first :: others.take count) := by
    split
    · exact List.reverse_perm _
    · exact List.Perm.refl _
  refine (hfound.append_right _).trans (.of_eq ?_)
  rw [List.cons_append, List.take_add]

/-- All items of runs, the last run first. -/
def allOf (waiting : List (Waiting α)) : List α := (waiting.map Waiting.items).reverse.flatten

theorem allOf_cons (last : Waiting α) (waiting : List (Waiting α)) :
    allOf (last :: waiting) = allOf waiting ++ last.items := by
  simp [allOf]

theorem perm_settled {cut threshold : Nat} {last : Waiting α} {waiting : List (Waiting α)}
    {result : Waiting α × List (Waiting α) × Nat}
    (h : settled before cut threshold last waiting = .ok result) :
    (allOf (result.1 :: result.2.1)).Perm (allOf (last :: waiting)) := by
  induction waiting generalizing last threshold with
  | nil =>
    cases h
    exact List.Perm.refl _
  | cons previous waiting ih =>
    unfold settled at h
    split at h
    · cases h
      exact List.Perm.refl _
    · obtain ⟨⟨items, next⟩, hmerged, h⟩ := bind_eq_ok.1 h
      refine (ih h).trans ?_
      rw [allOf_cons, allOf_cons, allOf_cons, List.append_assoc]
      exact (perm_merge hmerged).append_left _

theorem perm_pushed {length start threshold : Nat} {items : List α} {waiting : List (Waiting α)}
    {result : List (Waiting α) × Nat}
    (h : pushed before length start items threshold waiting = .ok result) :
    (allOf result.1).Perm (allOf waiting ++ items) := by
  unfold pushed at h
  split at h
  · cases h
    rw [allOf_cons]
  · next last waiting =>
    obtain ⟨⟨merged, left, next⟩, hsettled, h⟩ := bind_eq_ok.1 h
    cases h
    rw [allOf_cons, allOf_cons]
    refine List.Perm.append_right _ ?_
    have := perm_settled hsettled
    rwa [allOf_cons] at this

theorem perm_collapsed {threshold : Nat} {last : List α} {waiting : List (List α)}
    {result : List α} (h : collapsed before threshold last waiting = .ok result) :
    result.Perm (waiting.reverse.flatten ++ last) := by
  fun_induction collapsed before threshold last waiting with
  | case1 threshold last =>
    cases h
    simp
  | case2 threshold last previous =>
    obtain ⟨merged, hmerged, h⟩ := bind_eq_ok.1 h
    cases h
    simpa using perm_merge hmerged
  | case3 threshold last previous third waiting isShorter ih =>
    obtain ⟨⟨items, next⟩, hmerged, h⟩ := bind_eq_ok.1 h
    refine (ih _ _ h).trans ?_
    have := perm_merge hmerged
    simpa using (this.append_left waiting.reverse.flatten).append_right last
  | case4 threshold last previous third waiting isLonger ih =>
    obtain ⟨⟨items, next⟩, hmerged, h⟩ := bind_eq_ok.1 h
    refine (ih _ _ h).trans ?_
    have := perm_merge hmerged
    simpa using this.append_left (waiting.reverse.flatten ++ third)

theorem perm_arrangedAfter {length threshold : Nat} {waiting : List (Waiting α)}
    {items result : List α}
    (h : arrangedAfter before length threshold waiting items = .ok result) :
    result.Perm (allOf waiting ++ items) := by
  fun_induction arrangedAfter before length threshold waiting items with
  | case1 threshold =>
    cases h
    exact List.Perm.refl _
  | case2 threshold last others =>
    have := perm_collapsed h
    simpa [allOf] using this
  | case3 threshold waiting first others ih =>
    obtain ⟨⟨found, count⟩, hfound, h⟩ := bind_eq_ok.1 h
    obtain ⟨⟨after, next⟩, hpushed, h⟩ := bind_eq_ok.1 h
    refine (ih _ _ _ h).trans ?_
    refine ((perm_pushed hpushed).append_right _).trans ?_
    rw [List.append_assoc]
    refine List.Perm.append_left _ ?_
    refine ((perm_longRun hfound).append_right _).trans (.of_eq ?_)
    rw [List.cons_append, List.take_append_drop]

theorem perm_ofList {items result : List α} (h : ofList before items = .ok result) :
    result.Perm items := by
  simpa [allOf] using perm_arrangedAfter h

/-! ## Existence -/

theorem exists_not_eq_ok {x : Except ε Bool} (hx : ∃ b, x = .ok b) :
    ∃ b, (do return !(← x) : Except ε Bool) = .ok b :=
  exists_bind_eq_ok hx fun b _ => ⟨!b, rfl⟩

section Leap

variable {mirrored : Bool} {passes : α → Except ε Bool}

theorem exists_halved {items : List α} (h : ∀ x ∈ items, ∃ b, passes x = .ok b) :
    ∃ n, halved mirrored passes items = .ok n := by
  fun_induction halved mirrored passes items with
  | case1 => exact ⟨0, rfl⟩
  | case2 items asked rest hdrop ihrest ihtake =>
    have hmem : ∀ x ∈ asked :: rest, x ∈ items := fun x hx => List.mem_of_mem_drop (hdrop ▸ hx)
    refine exists_bind_eq_ok (h asked (hmem _ List.mem_cons_self)) fun b _ => ?_
    cases b
    · exact ihtake fun x hx => h x (List.mem_of_mem_take hx)
    · exact exists_bind_eq_ok (ihrest fun x hx => h x (hmem x (List.mem_cons_of_mem _ hx)))
        fun n _ => ⟨_, rfl⟩

theorem exists_strides {passed : Nat} {items : List α} (h : ∀ x ∈ items, ∃ b, passes x = .ok b) :
    ∃ n, strides mirrored passes passed items = .ok n := by
  fun_induction strides mirrored passes passed items with
  | case1 passed items => exact exists_halved h
  | case2 passed items asked rest hdrop ihrest =>
    have hmem : ∀ x ∈ asked :: rest, x ∈ items := fun x hx => List.mem_of_mem_drop (hdrop ▸ hx)
    refine exists_bind_eq_ok (h asked (hmem _ List.mem_cons_self)) fun b _ => ?_
    cases b
    · exact exists_halved fun x hx => h x (List.mem_of_mem_take hx)
    · exact exists_bind_eq_ok (ihrest fun x hx => h x (hmem x (List.mem_cons_of_mem _ hx)))
        fun n _ => ⟨_, rfl⟩

theorem exists_leap {items : List α} (h : ∀ x ∈ items, ∃ b, passes x = .ok b) :
    ∃ n, leap mirrored passes items = .ok n := by
  match items with
  | [] => exact ⟨0, rfl⟩
  | first :: rest =>
    refine exists_bind_eq_ok (h first List.mem_cons_self) fun b _ => ?_
    cases b
    · exact ⟨0, rfl⟩
    · exact exists_bind_eq_ok (exists_strides fun x hx => h x (List.mem_cons_of_mem _ hx))
        fun n _ => ⟨_, rfl⟩

end Leap

/-- All items that meet a condition can be compared. -/
def ComparesOn (before : α → α → Except ε Bool) (S : α → Prop) : Prop :=
  ∀ ⦃a⦄, S a → ∀ ⦃b⦄, S b → ∃ r, before a b = .ok r

variable {S : α → Prop}

theorem ComparesOn.not (h : ComparesOn before S) :
    ComparesOn (fun a b => do return !(← before a b)) S :=
  fun _ ha _ hb => exists_not_eq_ok (h ha hb)

theorem exists_round {mirrored : Bool} {goesFirst : α → α → Except ε Bool} {m : Merging α}
    (h : ComparesOn goesFirst S) (hm : ∀ x ∈ m.all, S x) :
    ∃ result, round mirrored goesFirst m = .ok result := by
  have hxs : ∀ x ∈ m.xs, S x := fun x hx =>
    hm x (List.mem_append_right _ (List.mem_append_left _ hx))
  have hys : ∀ y ∈ m.ys, S y := fun y hy =>
    hm y (List.mem_append_right _ (List.mem_append_right _ hy))
  unfold round
  split
  · exact ⟨_, rfl⟩
  · exact ⟨_, rfl⟩
  · next y _ hy _ =>
    have hSy : S y := hys y (hy ▸ List.mem_cons_self)
    refine exists_bind_eq_ok (exists_leap fun x hx => exists_not_eq_ok (h hSy (hxs x hx)))
      fun count _ => ?_
    dsimp only
    split
    · exact ⟨_, rfl⟩
    · split
      · exact ⟨_, rfl⟩
      · split
        · exact ⟨_, rfl⟩
        · next x _ hx =>
          have hSx : S x := hxs x (List.mem_of_mem_drop (hx ▸ List.mem_cons_self))
          refine exists_bind_eq_ok
            (exists_leap fun y hy => h (hys y (List.mem_of_mem_drop hy)) hSx) fun other _ => ?_
          split
          · exact ⟨_, rfl⟩
          · exact ⟨_, rfl⟩

theorem exists_mergeWithin {mirrored : Bool} {goesFirst : α → α → Except ε Bool} {steps : Nat}
    {mode : Mode} {threshold : Nat} {m : Merging α} (h : ComparesOn goesFirst S)
    (hm : ∀ x ∈ m.all, S x) :
    ∃ result, mergeWithin mirrored goesFirst steps mode threshold m = .ok result := by
  induction steps generalizing mode threshold m with
  | zero => exact ⟨_, rfl⟩
  | succ steps ih =>
    match mode with
    | .counting givenX givenY =>
      unfold mergeWithin
      split
      · next x _ y _ hx hy =>
        have hSx : S x := hm x (by simp [Merging.all, hx])
        have hSy : S y := hm y (by simp [Merging.all, hy])
        refine exists_bind_eq_ok (h hSy hSx) fun isY _ => ?_
        have htaken : ∀ x ∈ (if isY then m.takeY 1 else m.takeX 1).all, S x := by
          split
          · exact fun x hx => hm x ((m.perm_takeY 1).mem_iff.1 hx)
          · exact fun x hx => hm x ((m.perm_takeX 1).mem_iff.1 hx)
        dsimp only
        generalize (if isY then m.takeY 1 else m.takeX 1) = taken at htaken ⊢
        split
        · exact ⟨_, rfl⟩
        · exact ih htaken
      · exact ⟨_, rfl⟩
    | .leaping again =>
      unfold mergeWithin
      refine exists_bind_eq_ok (exists_round h hm) fun result hround => ?_
      have hafter : ∀ x ∈ result.1.all, S x :=
        fun x hx => hm x ((perm_round hround).mem_iff.1 hx)
      dsimp only
      split
      · exact ⟨_, rfl⟩
      · split
        · exact ih hafter
        · exact ih hafter

theorem exists_mergeAfter {mirrored : Bool} {goesFirst : α → α → Except ε Bool} {threshold : Nat}
    {m : Merging α} (h : ComparesOn goesFirst S) (hm : ∀ x ∈ m.all, S x) :
    ∃ result, mergeAfter mirrored goesFirst threshold m = .ok result := by
  unfold mergeAfter
  split
  · exact ⟨_, rfl⟩
  · exact exists_mergeWithin h hm

theorem exists_mergeForward {threshold : Nat} {xs ys : List α} (h : ComparesOn before S)
    (hxs : ∀ x ∈ xs, S x) (hys : ∀ y ∈ ys, S y) :
    ∃ result, mergeForward before threshold xs ys = .ok result := by
  refine exists_mergeAfter h fun x hx => ?_
  have hx : x ∈ xs ++ ys := (Merging.perm_takeY 1 _).mem_iff.1 hx
  exact (List.mem_append.1 hx).elim (hxs x) (hys x)

theorem exists_mergeBackward {threshold : Nat} {xs ys : List α} (h : ComparesOn before S)
    (hxs : ∀ x ∈ xs, S x) (hys : ∀ y ∈ ys, S y) :
    ∃ result, mergeBackward before threshold xs ys = .ok result := by
  refine exists_bind_eq_ok (exists_mergeAfter h.not fun x hx => ?_) fun _ _ => ⟨_, rfl⟩
  have hx : x ∈ xs.reverse ++ ys.reverse := (Merging.perm_takeX 1 _).mem_iff.1 hx
  exact (List.mem_append.1 hx).elim (fun hx => hxs x (List.mem_reverse.1 hx))
    (fun hx => hys x (List.mem_reverse.1 hx))

theorem exists_merge {threshold : Nat} {xs ys : List α} (h : ComparesOn before S)
    (hxs : ∀ x ∈ xs, S x) (hys : ∀ y ∈ ys, S y) :
    ∃ result, merge before threshold xs ys = .ok result := by
  unfold merge
  split
  · exact ⟨_, rfl⟩
  · next y rest =>
    have hSy : S y := hys y List.mem_cons_self
    refine exists_bind_eq_ok (exists_leap fun x hx => exists_not_eq_ok (h hSy (hxs x hx)))
      fun front _ => ?_
    have hback : ∀ x ∈ xs.drop front, S x := fun x hx => hxs x (List.mem_of_mem_drop hx)
    split
    · exact ⟨_, rfl⟩
    · next x hx =>
      have hSx : S x := hback x (List.mem_of_getLast? hx)
      refine exists_bind_eq_ok (exists_leap fun y hy =>
        exists_not_eq_ok (h (hys y (List.mem_reverse.1 hy)) hSx)) fun back _ => ?_
      generalize (y :: rest).length - back = inner
      have hfront : ∀ x ∈ (y :: rest).take inner, S x := fun x hx => hys x (List.mem_of_mem_take hx)
      dsimp only
      split
      · exact ⟨_, rfl⟩
      · split
        · exact exists_bind_eq_ok (exists_mergeForward h hback hfront) fun _ _ => ⟨_, rfl⟩
        · exact exists_bind_eq_ok (exists_mergeBackward h hback hfront) fun _ _ => ⟨_, rfl⟩

theorem exists_placed {item : α} {arranged : List α} (h : ComparesOn before S) (hitem : S item)
    (harranged : ∀ x ∈ arranged, S x) : ∃ result, placed before item arranged = .ok result :=
  exists_bind_eq_ok (exists_halved fun x hx => exists_not_eq_ok (h hitem (harranged x hx)))
    fun _ _ => ⟨_, rfl⟩

theorem exists_foldlM_placed {items arranged : List α} (h : ComparesOn before S)
    (hitems : ∀ x ∈ items, S x) (harranged : ∀ x ∈ arranged, S x) :
    ∃ result, items.foldlM (fun arranged item => placed before item arranged) arranged
      = .ok result := by
  induction items generalizing arranged with
  | nil => exact ⟨_, rfl⟩
  | cons item items ih =>
    rw [List.foldlM_cons]
    have hitem : S item := hitems item List.mem_cons_self
    refine exists_bind_eq_ok (exists_placed h hitem harranged) fun next hnext => ?_
    refine ih (fun x hx => hitems x (List.mem_cons_of_mem _ hx)) fun x hx => ?_
    rw [(perm_placed hnext).mem_iff] at hx
    exact (List.mem_cons.1 hx).elim (fun hx => hx ▸ hitem) (harranged x)

theorem exists_runFrom {falling : Bool} {last : α} {items : List α} (h : ComparesOn before S)
    (hlast : S last) (hitems : ∀ x ∈ items, S x) :
    ∃ n, runFrom before falling last items = .ok n := by
  induction items generalizing last with
  | nil => exact ⟨0, rfl⟩
  | cons next rest ih =>
    have hnext : S next := hitems next List.mem_cons_self
    refine exists_bind_eq_ok (h hnext hlast) fun b _ => ?_
    split
    · exact ⟨0, rfl⟩
    · exact exists_bind_eq_ok (ih hnext fun x hx => hitems x (List.mem_cons_of_mem _ hx))
        fun _ _ => ⟨_, rfl⟩

theorem exists_longRun {least : Nat} {first : α} {others : List α} (h : ComparesOn before S)
    (hfirst : S first) (hothers : ∀ x ∈ others, S x) :
    ∃ result, longRun before least first others = .ok result := by
  have hrun : ∃ result, run before first others = .ok result := by
    match others with
    | [] => exact ⟨_, rfl⟩
    | second :: rest =>
      have hsecond : S second := hothers second List.mem_cons_self
      refine exists_bind_eq_ok (h hsecond hfirst) fun falling _ => ?_
      exact exists_bind_eq_ok (exists_runFrom h hsecond
        fun x hx => hothers x (List.mem_cons_of_mem _ hx)) fun _ _ => ⟨_, rfl⟩
  refine exists_bind_eq_ok hrun fun found _ => ?_
  refine exists_bind_eq_ok (exists_foldlM_placed h
    (fun x hx => hothers x (List.mem_of_mem_drop (List.mem_of_mem_take hx))) fun x hx => ?_)
    fun _ _ => ⟨_, rfl⟩
  have hx : x ∈ first :: others.take found.2 := by
    split at hx
    · exact List.mem_reverse.1 hx
    · exact hx
  exact (List.mem_cons.1 hx).elim (fun hx => hx ▸ hfirst)
    fun hx => hothers x (List.mem_of_mem_take hx)

theorem mem_allOf_cons {last : Waiting α} {waiting : List (Waiting α)} {x : α} :
    x ∈ allOf (last :: waiting) ↔ x ∈ allOf waiting ∨ x ∈ last.items := by
  rw [allOf_cons, List.mem_append]

theorem exists_settled {cut threshold : Nat} {last : Waiting α} {waiting : List (Waiting α)}
    (h : ComparesOn before S) (hall : ∀ x ∈ allOf (last :: waiting), S x) :
    ∃ result, settled before cut threshold last waiting = .ok result := by
  induction waiting generalizing last threshold with
  | nil => exact ⟨_, rfl⟩
  | cons previous waiting ih =>
    unfold settled
    split
    · exact ⟨_, rfl⟩
    · have hlast : ∀ x ∈ last.items, S x := fun x hx => hall x (mem_allOf_cons.2 (.inr hx))
      have hothers : ∀ x ∈ allOf (previous :: waiting), S x :=
        fun x hx => hall x (mem_allOf_cons.2 (.inl hx))
      have hprevious : ∀ x ∈ previous.items, S x :=
        fun x hx => hothers x (mem_allOf_cons.2 (.inr hx))
      refine exists_bind_eq_ok (exists_merge h hprevious hlast) fun merged hmerged => ?_
      refine ih fun x hx => ?_
      obtain hx | hx := mem_allOf_cons.1 hx
      · exact hothers x (mem_allOf_cons.2 (.inl hx))
      · rw [(perm_merge hmerged).mem_iff] at hx
        exact (List.mem_append.1 hx).elim (hprevious x) (hlast x)

theorem exists_pushed {length start threshold : Nat} {items : List α}
    {waiting : List (Waiting α)} (h : ComparesOn before S) (hall : ∀ x ∈ allOf waiting, S x) :
    ∃ result, pushed before length start items threshold waiting = .ok result := by
  unfold pushed
  split
  · exact ⟨_, rfl⟩
  · exact exists_bind_eq_ok (exists_settled h hall) fun _ _ => ⟨_, rfl⟩

theorem exists_collapsed {threshold : Nat} {last : List α} {waiting : List (List α)}
    (h : ComparesOn before S) (hlast : ∀ x ∈ last, S x)
    (hwaiting : ∀ items ∈ waiting, ∀ x ∈ items, S x) :
    ∃ result, collapsed before threshold last waiting = .ok result := by
  have hmerged {threshold : Nat} {xs ys : List α} {result : List α × Nat}
      (hxs : ∀ x ∈ xs, S x) (hys : ∀ y ∈ ys, S y)
      (hresult : merge before threshold xs ys = .ok result) : ∀ x ∈ result.1, S x := by
    intro x hx
    rw [(perm_merge hresult).mem_iff] at hx
    exact (List.mem_append.1 hx).elim (hxs x) (hys x)
  fun_induction collapsed before threshold last waiting with
  | case1 => exact ⟨_, rfl⟩
  | case2 threshold last previous =>
    exact exists_bind_eq_ok (exists_merge h (hwaiting _ List.mem_cons_self) hlast)
      fun _ _ => ⟨_, rfl⟩
  | case3 threshold last previous third waiting isShorter ih =>
    have hprevious := hwaiting previous (by simp)
    have hthird := hwaiting third (by simp)
    refine exists_bind_eq_ok (exists_merge h hthird hprevious) fun result hresult => ?_
    refine ih _ _ hlast fun items hitems => ?_
    obtain rfl | hitems := List.mem_cons.1 hitems
    · exact hmerged hthird hprevious hresult
    · exact hwaiting items (by simp [hitems])
  | case4 threshold last previous third waiting isLonger ih =>
    have hprevious := hwaiting previous (by simp)
    refine exists_bind_eq_ok (exists_merge h hprevious hlast) fun result hresult => ?_
    exact ih _ _ (hmerged hprevious hlast hresult)
      fun items hitems => hwaiting items (List.mem_cons_of_mem _ hitems)

theorem exists_arrangedAfter {length threshold : Nat} {waiting : List (Waiting α)}
    {items : List α} (h : ComparesOn before S) (hwaiting : ∀ x ∈ allOf waiting, S x)
    (hitems : ∀ x ∈ items, S x) :
    ∃ result, arrangedAfter before length threshold waiting items = .ok result := by
  fun_induction arrangedAfter before length threshold waiting items with
  | case1 => exact ⟨_, rfl⟩
  | case2 threshold last others =>
    refine exists_collapsed h (fun x hx => hwaiting x (mem_allOf_cons.2 (.inr hx)))
      fun items hitems x hx => hwaiting x (mem_allOf_cons.2 (.inl ?_))
    exact List.mem_flatten.2 ⟨items, List.mem_reverse.2 hitems, hx⟩
  | case3 threshold waiting first others ih =>
    have hfirst : S first := hitems first List.mem_cons_self
    have hothers : ∀ x ∈ others, S x := fun x hx => hitems x (List.mem_cons_of_mem _ hx)
    refine exists_bind_eq_ok (exists_longRun h hfirst hothers) fun found hfound => ?_
    refine exists_bind_eq_ok (exists_pushed h hwaiting) fun after hpushed => ?_
    refine ih _ _ _ (fun x hx => ?_) fun x hx => hothers x (List.mem_of_mem_drop hx)
    rw [(perm_pushed hpushed).mem_iff] at hx
    obtain hx | hx := List.mem_append.1 hx
    · exact hwaiting x hx
    · rw [(perm_longRun hfound).mem_iff] at hx
      exact (List.mem_cons.1 hx).elim (fun hx => hx ▸ hfirst)
        fun hx => hothers x (List.mem_of_mem_take hx)

theorem exists_ofList {items : List α}
    (h : ∀ a ∈ items, ∀ b ∈ items, ∃ r, before a b = .ok r) :
    ∃ result, ofList before items = .ok result :=
  exists_arrangedAfter (S := (· ∈ items)) (fun a ha b hb => h a ha b hb) (by simp [allOf])
    fun _ hx => hx

end BlockDiagram.Arrangement
