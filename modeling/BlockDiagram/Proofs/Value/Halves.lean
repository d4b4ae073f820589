import BlockDiagram.Outcome
import BlockDiagram.Proofs.Binary64.Exact
import BlockDiagram.Value.Arithmetic
import Mathlib.Tactic.Ring

/-!
# Arithmetic on whole numbers and their halves

Sizes are whole numbers in either form, and positions are halves of whole numbers. As long as twice
their values have at most 53 bits, sums and differences of halves are exact whatever form they have,
and rounding finds a whole number.

* `IsWhole`, `IsHalf`: whole numbers and halves of whole numbers, in either form.
* `exists_add`, `exists_sub`, `half_eq`, `exists_times`: exact results.
* `IsReal`, `exists_add_of_isReal`: sums of large numbers, which are rounded but no failures.
* `round_eq`, `roundedHalf_bounds`: a half is rounded to a whole number that is near.
* `exists_sum`, `exists_greatest`: sums and maxima of whole numbers.
-/

namespace BlockDiagram.Value

open Binary64 (ofRat ofRat_half)

/-! ## Forms -/

/-- Whether a value is a whole number, as such or in floating point. -/
def IsWhole (v : Value) (n : Int) : Prop := v = .int n ∨ v = .float (.rational n)

/-- Half of a whole number, in floating point. -/
def halved (n : Int) : Value := .float (.rational ((n : Rat) / 2))

/-- Whether a value is half of a whole number, in floating point unless it is itself a whole
number. -/
def IsHalf (v : Value) (n : Int) : Prop := (∃ m, v = .int m ∧ n = 2 * m) ∨ v = halved n

variable {m n : Int} {v w : Value}

theorem cast_half (n : Int) : ((2 * n : Int) : Rat) / 2 = n := by
  push_cast
  ring

theorem isHalf_halved (n : Int) : (halved n).IsHalf n := .inr rfl

theorem IsWhole.isHalf (h : v.IsWhole n) : v.IsHalf (2 * n) := by
  rcases h with rfl | rfl
  · exact .inl ⟨n, rfl, rfl⟩
  · right
    rw [halved, cast_half]

theorem IsHalf.isWhole (h : v.IsHalf (2 * n)) : v.IsWhole n := by
  rcases h with ⟨m, rfl, hm⟩ | rfl
  · left
    congr 1
    omega
  · right
    rw [halved, cast_half]

/-- The number that a half is, and its form in floating point. -/
theorem IsHalf.number (h : v.IsHalf n) (hn : n.natAbs < 2 ^ 53) :
    (∃ m, v.number? = some (.whole m) ∧ n = 2 * m ∧
        Number.toReal (.whole m) = .ok (.rational ((n : Rat) / 2))) ∨
      v.number? = some (.real (.rational ((n : Rat) / 2))) := by
  rcases h with ⟨m, rfl, rfl⟩ | rfl
  · refine .inl ⟨m, rfl, rfl, ?_⟩
    rw [Number.toReal, Binary64.ofInt?, ← cast_half, ofRat_half hn]
  · exact .inr rfl

/-! ## Operations -/

theorem add_rational (hsum : (m + n).natAbs < 2 ^ 53) :
    Binary64.add (.rational ((m : Rat) / 2)) (.rational ((n : Rat) / 2))
      = .rational (((m + n : Int) : Rat) / 2) := by
  have hcast : (m : Rat) / 2 + (n : Rat) / 2 = ((m + n : Int) : Rat) / 2 := by
    push_cast
    ring
  simp only [Binary64.add, Binary64.value, hcast, ofRat_half hsum]

theorem sub_rational (hdifference : (m - n).natAbs < 2 ^ 53) :
    Binary64.sub (.rational ((m : Rat) / 2)) (.rational ((n : Rat) / 2))
      = .rational (((m - n : Int) : Rat) / 2) := by
  have hcast : (m : Rat) / 2 + -((n : Rat) / 2) = ((m - n : Int) : Rat) / 2 := by
    push_cast
    ring
  rw [Binary64.sub, Binary64.neg]
  split
  · next hzero =>
    rw [hzero, neg_zero] at hcast
    simp only [Binary64.add, Binary64.value, hcast, ofRat_half hdifference]
  · simp only [Binary64.add, Binary64.value, hcast, ofRat_half hdifference]

/-- Two whole numbers are computed exactly; otherwise both are in floating point. -/
theorem combine_of_isHalf (exact : Int → Int → Int) (rounded : Binary64 → Binary64 → Binary64)
    (hv : v.IsHalf m) (hw : w.IsHalf n) (hm : m.natAbs < 2 ^ 53) (hn : n.natAbs < 2 ^ 53) :
    ∃ x y, v.number? = some x ∧ w.number? = some y ∧
      ((∃ i j, m = 2 * i ∧ n = 2 * j ∧
          Number.combine exact rounded x y = .ok (.whole (exact i j))) ∨
        Number.combine exact rounded x y
          = .ok (.real (rounded (.rational ((m : Rat) / 2)) (.rational ((n : Rat) / 2))))) := by
  rcases hv.number hm with ⟨i, hx, hi, hleft⟩ | hx <;>
    rcases hw.number hn with ⟨j, hy, hj, hright⟩ | hy
  · exact ⟨_, _, hx, hy, .inl ⟨i, j, hi, hj, rfl⟩⟩
  · refine ⟨_, _, hx, hy, .inr ?_⟩
    simp only [Number.combine, hleft, bind, Except.bind]
    rfl
  · refine ⟨_, _, hx, hy, .inr ?_⟩
    simp only [Number.combine, hright, bind, Except.bind]
    rfl
  · exact ⟨_, _, hx, hy, .inr rfl⟩

theorem exists_add (hv : v.IsHalf m) (hw : w.IsHalf n) (hm : m.natAbs < 2 ^ 53)
    (hn : n.natAbs < 2 ^ 53) (hsum : (m + n).natAbs < 2 ^ 53) :
    ∃ u, add v w = .ok u ∧ u.IsHalf (m + n) := by
  obtain ⟨x, y, hx, hy, ⟨i, j, rfl, rfl, h⟩ | h⟩ :=
    combine_of_isHalf (· + ·) Binary64.add hv hw hm hn
  · exact ⟨.int (i + j), by simp only [add, hx, hy, h]; rfl, .inl ⟨i + j, rfl, by ring⟩⟩
  · rw [add_rational hsum] at h
    exact ⟨halved (m + n), by simp only [add, hx, hy, h]; rfl, isHalf_halved _⟩

theorem exists_sub (hv : v.IsHalf m) (hw : w.IsHalf n) (hm : m.natAbs < 2 ^ 53)
    (hn : n.natAbs < 2 ^ 53) (hdifference : (m - n).natAbs < 2 ^ 53) :
    ∃ u, sub v w = .ok u ∧ u.IsHalf (m - n) := by
  obtain ⟨x, y, hx, hy, ⟨i, j, rfl, rfl, h⟩ | h⟩ :=
    combine_of_isHalf (· - ·) Binary64.sub hv hw hm hn
  · exact ⟨.int (i - j), by simp only [sub, hx, hy, h]; rfl, .inl ⟨i - j, rfl, by ring⟩⟩
  · rw [sub_rational hdifference] at h
    exact ⟨halved (m - n), by simp only [sub, hx, hy, h]; rfl, isHalf_halved _⟩

theorem half_eq (h : v.IsWhole n) (hn : n.natAbs < 2 ^ 53) : half v = .ok (halved n) := by
  rcases h with rfl | rfl
  · simp only [half, number?, Number.half, Binary64.halfOfInt?, ofRat_half hn]
    rfl
  · simp only [half, number?, Number.half, Binary64.half, ofRat_half hn]
    rfl

theorem mul_natCast {m n : Nat} (h : m * n < 2 ^ 52) :
    Binary64.mul (.rational m) (.rational n) = .rational ((m * n : Nat) : Rat) := by
  have hsign : ∀ k : Nat, decide ((k : Rat) < 0) = false := fun k =>
    decide_eq_false (not_lt.2 (Nat.cast_nonneg k))
  by_cases hzero : m * n = 0
  · rcases Nat.mul_eq_zero.1 hzero with rfl | rfl <;>
      simp [Binary64.mul, Binary64.isZero, Binary64.isNegative, Binary64.zero]
  · obtain ⟨hm, hn⟩ := mul_ne_zero_iff.1 hzero
    have hcast : (m : Rat) * (n : Rat) = ((2 * ((m * n : Nat) : Int) : Int) : Rat) / 2 := by
      push_cast
      ring
    have hround := ofRat_half (n := 2 * ((m * n : Nat) : Int)) (by omega)
    rw [← hcast] at hround
    simp [Binary64.mul, Binary64.isZero, Binary64.value, hm, hn, hround]

/-- A whole number taken a number of times. -/
theorem exists_times {n k : Nat} (h : v.IsWhole n) (hk : k < 2 ^ 52)
    (hproduct : n * k < 2 ^ 52) :
    ∃ u, v.times k = .ok u ∧ u.IsWhole ((n * k : Nat) : Int) := by
  rcases h with rfl | rfl
  · refine ⟨.int ((n : Int) * k), rfl, .inl ?_⟩
    rw [Int.natCast_mul]
  · have hreal : Number.toReal (.whole k) = .ok (.rational (k : Rat)) := by
      have hround := ofRat_half (n := 2 * (k : Int)) (by omega)
      rw [cast_half] at hround
      rw [Number.toReal, Binary64.ofInt?, hround]
      rfl
    refine ⟨.float (.rational ((n * k : Nat) : Rat)), ?_, .inr ?_⟩
    · simp only [times, number?, Number.combine, Number.toReal] at hreal ⊢
      rw [hreal]
      exact congrArg (fun x => Except.ok (Value.float x)) (mul_natCast hproduct)
    · rfl

/-! ## Large numbers -/

/-- Whether a value has a nearest number in floating point. -/
def IsReal (v : Value) : Prop := ∃ x r, v.number? = some x ∧ x.toReal = .ok r

theorem isReal_float (r : Binary64) : (Value.float r).IsReal := ⟨.real r, r, rfl, rfl⟩

theorem isReal_int {k : Nat} (hk : k < 1024) (hn : n.natAbs < 2 ^ k) : (Value.int n).IsReal := by
  obtain ⟨r, hr⟩ := Binary64.exists_ofInt? hk hn
  exact ⟨.whole n, r, rfl, by rw [Number.toReal, hr]⟩

theorem IsHalf.isReal (h : v.IsHalf n) (hn : n.natAbs < 2 ^ 53) : v.IsReal := by
  rcases h.number hn with ⟨m, hx, -, hreal⟩ | hx
  · exact ⟨_, _, hx, hreal⟩
  · exact ⟨_, _, hx, rfl⟩

/-- A sum of numbers that have nearest ones is never a failure. -/
theorem exists_add_of_isReal (hv : v.IsReal) (hw : w.IsReal) : ∃ u, add v w = .ok u := by
  obtain ⟨x, p, hx, hp⟩ := hv
  obtain ⟨y, q, hy, hq⟩ := hw
  obtain ⟨z, hz⟩ : ∃ z, Number.combine (· + ·) Binary64.add x y = .ok z := by
    cases x with
    | whole i =>
      cases y with
      | whole j => exact ⟨_, rfl⟩
      | real y => exact ⟨.real (p.add y), by simp only [Number.combine, hp]; rfl⟩
    | real x => exact ⟨.real (x.add q), by simp only [Number.combine, hq]; rfl⟩
  exact ⟨z.toValue, by simp only [add, hx, hy, hz]; rfl⟩

/-- A sum of whole numbers that is not too large has a nearest number. -/
theorem exists_add_isReal {k : Nat} (hk : k < 1024) {m n : Nat} (hv : v.IsWhole m)
    (hw : w.IsWhole n) (hsum : m + n < 2 ^ k) : ∃ u, add v w = .ok u ∧ u.IsReal := by
  have hreal : ∀ i : Nat, i ≤ m + n → ∃ r, Number.toReal (.whole i) = .ok r := by
    intro i hi
    obtain ⟨r, hr⟩ := Binary64.exists_ofInt? (n := (i : Int)) hk (by omega)
    exact ⟨r, by rw [Number.toReal, hr]⟩
  rcases hv with rfl | rfl <;> rcases hw with rfl | rfl
  · refine ⟨_, add_int m n, isReal_int hk ?_⟩
    omega
  · obtain ⟨r, hr⟩ := hreal m (Nat.le_add_right m n)
    exact ⟨_, by simp only [add, number?, Number.combine, hr]; rfl, isReal_float (r.add _)⟩
  · obtain ⟨r, hr⟩ := hreal n (Nat.le_add_left n m)
    exact ⟨_, by simp only [add, number?, Number.combine, hr]; rfl, isReal_float (.add _ r)⟩
  · exact ⟨_, rfl, isReal_float (.add _ _)⟩

/-! ## Rounding -/

/-- The whole number that half a whole number is rounded to. -/
def roundedHalf (n : Int) : Int := Binary64.roundHalfEven ((n : Rat) / 2)

theorem roundedHalf_double (n : Int) : roundedHalf (2 * n) = n := by
  rw [roundedHalf, cast_half, Binary64.roundHalfEven_intCast]

theorem round_eq (h : v.IsHalf n) : round v = .ok (roundedHalf n) := by
  rcases h with ⟨m, rfl, rfl⟩ | rfl
  · rw [round_int, roundedHalf_double]
  · rfl

theorem roundedHalf_bounds (n : Int) : n - 1 ≤ 2 * roundedHalf n ∧ 2 * roundedHalf n ≤ n + 1 := by
  obtain ⟨hlow, hhigh⟩ := Binary64.roundHalfEven_bounds ((n : Rat) / 2)
  constructor
  · have hcast : (n : Rat) - 1 ≤ 2 * roundedHalf n := by
      rw [roundedHalf]
      linarith
    exact_mod_cast hcast
  · have hcast : 2 * (roundedHalf n : Rat) ≤ n + 1 := by
      rw [roundedHalf]
      linarith
    exact_mod_cast hcast

/-! ## Sums and maxima -/

/-- Values that are natural numbers, one for one. -/
def AreWhole (vs : List Value) (ns : List Nat) : Prop :=
  List.Forall₂ (fun v (n : Nat) => v.IsWhole n) vs ns

theorem exists_add_whole {m n : Nat} (hv : v.IsWhole m) (hw : w.IsWhole n)
    (hsum : m + n < 2 ^ 52) : ∃ u, add v w = .ok u ∧ u.IsWhole ((m + n : Nat) : Int) := by
  obtain ⟨u, hu, hhalf⟩ := exists_add hv.isHalf hw.isHalf (by omega) (by omega) (by omega)
  refine ⟨u, hu, IsHalf.isWhole ?_⟩
  rwa [Int.natCast_add, Int.mul_add]

theorem exists_foldlM_add {vs : List Value} {ns : List Nat} (h : AreWhole vs ns) {s : Nat}
    (hv : v.IsWhole s) (hsum : s + ns.sum < 2 ^ 52) :
    ∃ u, vs.foldlM add v = .ok u ∧ u.IsWhole ((s + ns.sum : Nat) : Int) := by
  induction h generalizing v s with
  | nil => exact ⟨v, rfl, hv⟩
  | cons hfirst hrest ih =>
    rw [List.sum_cons, ← Nat.add_assoc] at hsum ⊢
    obtain ⟨u, hu, hwhole⟩ := exists_add_whole hv hfirst (by omega)
    rw [List.foldlM_cons, hu]
    exact ih hwhole hsum

theorem exists_sum {vs : List Value} {ns : List Nat} (h : AreWhole vs ns)
    (hsum : ns.sum < 2 ^ 52) : ∃ u, sum vs = .ok u ∧ u.IsWhole (ns.sum : Nat) := by
  have hzero := exists_foldlM_add h (v := .int 0) (s := 0) (.inl rfl) (by omega)
  rwa [Nat.zero_add] at hzero

theorem greaterThan_eq (hv : v.IsWhole m) (hw : w.IsWhole n) :
    v.greaterThan w = .ok (decide (n < m)) := by
  rcases hv with rfl | rfl <;> rcases hw with rfl | rfl <;>
    simp [greaterThan, before, number?, Number.lt, Binary64.lt, Binary64.value]

/-- The greatest of whole numbers, compared exactly whatever their size. -/
theorem exists_greatest {vs : List Value} {ns : List Nat} (h : AreWhole vs ns) {first : Nat}
    (hv : v.IsWhole first) :
    ∃ u, greatest v vs = .ok u ∧ u.IsWhole (ns.foldl max first : Nat) := by
  rw [greatest]
  induction h generalizing v first with
  | nil => exact ⟨v, rfl, hv⟩
  | @cons w n vs ns hw hrest ih =>
    rw [List.foldlM_cons, greaterThan_eq hw hv, List.foldl_cons]
    by_cases hlt : first < n
    · rw [Nat.max_eq_right (Nat.le_of_lt hlt)]
      simpa [hlt, bind, Except.bind, pure, Except.pure] using ih hw
    · rw [Nat.max_eq_left (Nat.not_lt.1 hlt)]
      simpa [hlt, bind, Except.bind, pure, Except.pure] using ih hv

end BlockDiagram.Value
