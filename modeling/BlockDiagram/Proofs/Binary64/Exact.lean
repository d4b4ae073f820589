import BlockDiagram.Binary64
import Mathlib.Tactic.FieldSimp
import Mathlib.Tactic.Linarith
import Mathlib.Tactic.Positivity

/-!
# Halves that are exact

A half of a whole number of at most 53 bits lies on the grid of binary64 numbers, since the unit
there is a half or finer. It is not changed by rounding.

* `roundHalfEven_bounds`: the nearest whole number is no further off than a half.
* `binaryExponent_lt`: the exponent of a number below a power of two.
* `ofRat_half`: rounding leaves such halves alone.
* `exists_ofInt?`: a whole number that is not too large has a nearest one.
-/

namespace BlockDiagram.Binary64

theorem power_two (e : Int) : power 2 e = (2 : Rat) ^ e := by
  rw [power]
  split
  · next he =>
    obtain ⟨n, rfl⟩ := Int.eq_ofNat_of_zero_le he
    simp
  · next he =>
    obtain ⟨n, hn⟩ := Int.eq_ofNat_of_zero_le (Int.le_of_lt (Int.neg_pos_of_neg (Int.not_le.1 he)))
    have he' : e = -(n : Int) := by omega
    rw [Rat.mkRat_eq_div, hn, he', zpow_neg]
    simp

theorem magnitude_eq_abs (q : Rat) : magnitude q = |q| := by
  rw [magnitude]
  split
  · next h => rw [abs_of_neg h]
  · next h => rw [abs_of_nonneg (not_lt.1 h)]

theorem roundHalfEven_intCast (n : Int) : roundHalfEven (n : Rat) = n := by
  have hpart : (n : Rat) - ((n : Rat).floor : Rat) < mkRat 1 2 := by
    rw [Rat.floor_intCast, sub_self, Rat.mkRat_eq_div]
    norm_num
  rw [roundHalfEven]
  rw [if_pos hpart, Rat.floor_intCast]

theorem roundHalfEven_bounds (q : Rat) :
    q - 1 / 2 ≤ roundHalfEven q ∧ (roundHalfEven q : Rat) ≤ q + 1 / 2 := by
  have hlow : (q.floor : Rat) ≤ q := Rat.floor_le q
  have hhigh : q - 1 < q.floor := Rat.lt_floor
  rw [roundHalfEven, Rat.mkRat_eq_div]
  split
  · next hpart =>
    push_cast at hpart ⊢
    constructor <;> linarith
  · next hpart =>
    push_cast at hpart
    split
    · next hpart' =>
      push_cast at hpart' ⊢
      constructor <;> linarith
    · next hpart' =>
      -- a tie: the floor and the number above it are equally near
      push_cast at hpart'
      split
      · constructor <;> linarith
      · push_cast
        constructor <;> linarith

/-- The exponent of a number below a power of two is less than that power's. -/
theorem binaryExponent_lt {q : Rat} {k : Nat} (hq : |q| < 2 ^ k) : binaryExponent q < k := by
  rw [binaryExponent]
  rw [magnitude_eq_abs, power_two]
  split
  · next hguess =>
    have hlt : (2 : Rat) ^ ((q.num.natAbs.log2 : Int) - (q.den.log2 : Int))
        < (2 : Rat) ^ (k : Int) :=
      lt_of_le_of_lt hguess (by exact_mod_cast hq)
    exact (zpow_lt_zpow_iff_right₀ (by norm_num : (1 : Rat) < 2)).1 hlt
  · have hnum : q.num.natAbs < 2 ^ k * q.den := by
      have hden : (0 : Rat) < q.den := by exact_mod_cast q.den_pos
      have habs : |q| = (q.num.natAbs : Rat) / q.den := by
        rw [← Rat.num_div_den q, abs_div, abs_of_pos hden, Rat.num_div_den, Nat.cast_natAbs,
          Int.cast_abs]
      rw [habs, div_lt_iff₀ hden] at hq
      exact_mod_cast hq
    have hden : q.den < 2 ^ (q.den.log2 + 1) := Nat.lt_log2_self
    have hbound : q.num.natAbs < 2 ^ (q.den.log2 + (k + 1)) := by
      calc q.num.natAbs < 2 ^ k * q.den := hnum
        _ ≤ 2 ^ k * 2 ^ (q.den.log2 + 1) := Nat.mul_le_mul_left _ (Nat.le_of_lt hden)
        _ = 2 ^ (q.den.log2 + (k + 1)) := by rw [← Nat.pow_add]; congr 1; omega
    have hlog : q.num.natAbs.log2 < q.den.log2 + (k + 1) := by
      by_cases hzero : q.num.natAbs = 0
      · rw [hzero]
        simp
      · exact (Nat.log2_lt hzero).2 hbound
    omega

/-- The unit at a number below that power is half of a whole unit fraction, or finer. -/
theorem exists_unitAt {q : Rat} (hq : |q| < 2 ^ 52) :
    ∃ k : Nat, unitAt q = ((2 : Rat) ^ (k + 1))⁻¹ := by
  have hexponent := binaryExponent_lt hq
  rw [unitAt, power_two]
  split
  · refine ⟨1073, ?_⟩
    rw [← zpow_natCast, ← zpow_neg]
    norm_num
  · obtain ⟨k, hk⟩ := Int.eq_ofNat_of_zero_le (show 0 ≤ 51 - binaryExponent q by omega)
    refine ⟨k, ?_⟩
    rw [← zpow_natCast, ← zpow_neg]
    congr 1
    push_cast
    omega

theorem abs_half_lt {n : Int} (hn : n.natAbs < 2 ^ 53) : |(n : Rat) / 2| < 2 ^ 52 := by
  have hcast : |(n : Rat)| < 2 ^ 53 := by
    rw [← Int.cast_abs, Int.abs_eq_natAbs]
    exact_mod_cast hn
  rw [abs_div, abs_two]
  linarith

theorem nearest_half {n : Int} (hn : n.natAbs < 2 ^ 53) :
    nearest ((n : Rat) / 2) = (n : Rat) / 2 := by
  obtain ⟨k, hk⟩ := exists_unitAt (abs_half_lt hn)
  have hgrid : (n : Rat) / 2 / ((2 : Rat) ^ (k + 1))⁻¹ = ((n * 2 ^ k : Int) : Rat) := by
    push_cast
    rw [pow_succ]
    field_simp
  rw [nearest]
  rw [hk, hgrid, roundHalfEven_intCast, ← hgrid]
  field_simp

/-- Halves of whole numbers of at most 53 bits are not rounded. -/
theorem ofRat_half {n : Int} (hn : n.natAbs < 2 ^ 53) :
    ofRat ((n : Rat) / 2) = .rational ((n : Rat) / 2) := by
  obtain ⟨hlow, hhigh⟩ := abs_lt.1 (abs_half_lt hn)
  have hlimit : (2 : Rat) ^ 52 < limit := by
    rw [limit, power_two, ← zpow_natCast]
    exact zpow_lt_zpow_right₀ (by norm_num) (by norm_num)
  rw [ofRat, nearest_half hn, if_neg (by linarith), if_neg (by linarith), if_neg]
  rintro ⟨hzero, hneg⟩
  rw [hzero] at hneg
  exact lt_irrefl 0 hneg

/-! ## Large numbers -/

theorem unitAt_pos (q : Rat) : 0 < unitAt q := by
  rw [unitAt, power_two]
  exact zpow_pos (by norm_num) _

/-- Rounding moves a number by no more than a unit. -/
theorem abs_nearest_le (q : Rat) : |nearest q| ≤ |q| + unitAt q := by
  have hunit := unitAt_pos q
  obtain ⟨hlow, hhigh⟩ := roundHalfEven_bounds (q / unitAt q)
  have hexact : q / unitAt q * unitAt q = q := div_mul_cancel₀ q hunit.ne'
  have hlow' := mul_le_mul_of_nonneg_right hlow hunit.le
  have hhigh' := mul_le_mul_of_nonneg_right hhigh hunit.le
  rw [sub_mul, hexact] at hlow'
  rw [add_mul, hexact] at hhigh'
  obtain ⟨hneg, hpos⟩ := abs_le.1 (le_refl |q|)
  rw [nearest]
  exact abs_le.2 ⟨by linarith, by linarith⟩

theorem unitAt_le {q : Rat} {k : Nat} (hq : |q| < 2 ^ k) : unitAt q ≤ 2 ^ k := by
  have hexponent := binaryExponent_lt hq
  rw [unitAt, power_two, ← zpow_natCast]
  refine zpow_le_zpow_right₀ (by norm_num) ?_
  split <;> omega

/-- A whole number below the greatest power of two that is finite has a nearest number. -/
theorem exists_ofInt? {n : Int} {k : Nat} (hk : k < 1024) (hn : n.natAbs < 2 ^ k) :
    ∃ x, ofInt? n = some x := by
  have hq : |(n : Rat)| < 2 ^ k := by
    rw [← Int.cast_abs, Int.abs_eq_natAbs]
    exact_mod_cast hn
  have hlimit : (2 : Rat) ^ k + 2 ^ k ≤ limit := by
    rw [limit, power_two, ← two_mul, ← pow_succ', ← zpow_natCast]
    exact zpow_le_zpow_right₀ (by norm_num) (by omega)
  have hnearest : |nearest n| < limit := by
    have hle := abs_nearest_le n
    have hunit := unitAt_le hq
    linarith
  obtain ⟨hlow, hhigh⟩ := abs_lt.1 hnearest
  rw [ofInt?, ofRat, if_neg (not_le.2 hhigh), if_neg (not_le.2 hlow)]
  by_cases hzero : nearest (n : Rat) = 0 ∧ (n : Rat) < 0
  · rw [if_pos hzero]
    exact ⟨_, rfl⟩
  · rw [if_neg hzero]
    exact ⟨_, rfl⟩

end BlockDiagram.Binary64
