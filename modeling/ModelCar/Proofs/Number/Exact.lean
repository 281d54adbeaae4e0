import Mathlib
import ModelCar.Number.Scalar

/-!
# Exact arithmetic

The real numbers as a number system, and any ordered field.  What is written over any number
system is computed without rounding on them, and every number is finite.  These number
systems are no instances, since their operations would compete with those that the numbers
have.
-/

namespace ModelCar

/-- The real numbers as a number system. -/
@[reducible]
noncomputable def realScalar : Scalar ℝ where
  decidableLT := Real.decidableLT
  decidableLE := Real.decidableLE
  ofNat := Nat.cast
  abs x := |x|
  sqrt := Real.sqrt
  isNaN _ := false
  isFinite _ := true

/-- The numbers of an ordered field as a number system, with some function in the place of
the square root. -/
@[reducible]
def exactScalar {K : Type} [Field K] [LinearOrder K] (sqrt : K → K) : Scalar K where
  decidableLT := inferInstance
  decidableLE := inferInstance
  ofNat := Nat.cast
  abs x := |x|
  sqrt := sqrt
  isNaN _ := false
  isFinite _ := true

/-- The integer nearest to a real number, a half going away from zero. -/
noncomputable def nearest (x : ℝ) : ℤ :=
  if 0 ≤ x then round x else -round (-x)

noncomputable instance : Integral ℝ where
  nearestInt lo hi x := max lo (min hi (nearest x))
  ofInt := Int.cast

theorem abs_nearest_sub_le (x : ℝ) :
  |nearest x - x| ≤ 1 / 2
  := by
  rw [nearest]
  split
  · rw [abs_sub_comm]
    exact abs_sub_round x
  · rw [Int.cast_neg, neg_sub_left, add_comm, ← neg_sub_left]
    exact abs_sub_round (-x)

/-- An integer close to a number is not beyond an integer that the number is not beyond. -/
theorem abs_le_of_close {x : ℝ} {k n : ℤ} (hk : |k - x| ≤ 1 / 2) (hx : |x| ≤ n) :
  |k| ≤ n
  := by
  have hlt : |(k : ℝ)| < n + 1 := by
    have := abs_sub_abs_le_abs_sub (k : ℝ) x
    linarith
  exact Int.lt_add_one_iff.mp (by exact_mod_cast hlt)

section
variable {K : Type} [Field K] [LinearOrder K]

/-- In exact arithmetic a number is brought to a range by its bounds. -/
theorem clamp_exact (sqrt : K → K) {lo hi : K} (h : lo ≤ hi) (x : K) :
  @Scalar.clamp K (exactScalar sqrt) lo hi x = max lo (min hi x)
  := by
  show (if x < lo then lo else if hi < x then hi else x) = _
  split
  · rename_i hlo
    rw [max_eq_left (min_le_of_right_le hlo.le)]
  · rename_i hlo
    split
    · rename_i hhi
      rw [min_eq_left hhi.le, max_eq_right h]
    · rename_i hhi
      rw [min_eq_right (not_lt.mp hhi), max_eq_right (not_lt.mp hlo)]

theorem abs_max_min_le [IsStrictOrderedRing K] {b : K} (hb : 0 ≤ b) (x : K) :
  |max (-b) (min b x)| ≤ b
  := abs_le.mpr ⟨le_max_left _ _, max_le (neg_le_self hb) (min_le_left _ _)⟩

end

theorem clampUnit_real (x : ℝ) :
  @Scalar.clampUnit ℝ realScalar x = max (-1) (min 1 x)
  := by
  have hle : (-1.0 : ℝ) ≤ 1.0 := by norm_num
  have hone : (1.0 : ℝ) = 1 := by norm_num
  calc @Scalar.clampUnit ℝ realScalar x
      = @Scalar.clamp ℝ (exactScalar Real.sqrt) (-1.0) 1.0 x := if_neg Bool.false_ne_true
    _ = max (-1) (min 1 x) := by rw [clamp_exact Real.sqrt hle, hone]

/-- A number between `-1` and `1` stays as it is. -/
theorem max_min_of_abs_le {x : ℝ} (h : |x| ≤ 1) :
  max (-1) (min 1 x) = x
  := by
  obtain ⟨hlo, hhi⟩ := abs_le.mp h
  rw [min_eq_right hhi, max_eq_right hlo]

end ModelCar
