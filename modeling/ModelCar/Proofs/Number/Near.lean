import ModelCar.Proofs.Number.Single

/-!
# Rounding errors

As long as no result is larger than seven, every operation is exact up to the same small
error, in single as in double precision: `2 ^ 24` steps of `2 ^ (-21)` reach up to eight.
This is far from the best bound in double precision, but one bound for all operations makes
it easy to add up the errors of a computation.
-/

namespace ModelCar

open Float.Model

/-- A bound for the error of one operation. -/
noncomputable def slip : ℝ :=
  1 / 2000000

/-- Numbers up to seven are rounded with an error of at most one slip. -/
theorem Rounds.near {f : Format} {r : ℝ} {u : UnpackedFloat} (h : Rounds f r u)
    (hmin : f.minExponent ≤ -21) (hbits : 24 ≤ f.mantissaBits) (hr : |r| ≤ 7) :
  |value u - r| ≤ slip
  := by
  have hpow : (2 : ℝ) ^ 24 ≤ 2 ^ f.mantissaBits := pow_le_pow_right₀ one_le_two hbits
  have hlt : |r| < (2 ^ f.mantissaBits - 1) * 2 ^ (-21 : ℤ) := by
    calc |r| ≤ 7 := hr
      _ < (2 ^ 24 - 1) * 2 ^ (-21 : ℤ) := by norm_num
      _ ≤ (2 ^ f.mantissaBits - 1) * 2 ^ (-21 : ℤ) := by gcongr
  apply (h.abs_sub_le hmin hlt).trans
  norm_num [slip]

theorem le_maxValue_of_le_seven {f : Format} (hf : 3 ≤ f.exponentBias) {r : ℝ}
    (h : |r| ≤ 7) :
  |r| ≤ maxValue f
  := by
  have hpow : (2 : ℝ) ^ (3 : ℤ) ≤ maxValue f := zpow_le_maxValue (by exact_mod_cast hf)
  norm_num at hpow
  linarith

/-! ### Double precision -/

section
variable {x y : Float}

theorem RoundsTo.near {r : ℝ} (h : RoundsTo r x) (hr : |r| ≤ 7) :
  x.isFinite ∧ |double x - r| ≤ slip
  := ⟨h.isFinite, Rounds.near h (by decide) (by decide) hr⟩

theorem double_add_near (hx : x.isFinite) (hy : y.isFinite)
    (h : |double x + double y| ≤ 7) :
  (x + y).isFinite ∧ |double (x + y) - (double x + double y)| ≤ slip
  := (roundsTo_add hx hy (le_maxValue_of_le_seven (by decide) h)).near h

theorem double_sub_near (hx : x.isFinite) (hy : y.isFinite)
    (h : |double x - double y| ≤ 7) :
  (x - y).isFinite ∧ |double (x - y) - (double x - double y)| ≤ slip
  := (roundsTo_sub hx hy (le_maxValue_of_le_seven (by decide) h)).near h

theorem double_mul_near (hx : x.isFinite) (hy : y.isFinite)
    (h : |double x * double y| ≤ 7) :
  (x * y).isFinite ∧ |double (x * y) - double x * double y| ≤ slip
  := (roundsTo_mul hx hy (le_maxValue_of_le_seven (by decide) h)).near h

theorem double_div_near (hx : x.isFinite) (hy : y.isFinite) (hz : double y ≠ 0)
    (h : |double x / double y| ≤ 7) :
  (x / y).isFinite ∧ |double (x / y) - double x / double y| ≤ slip
  := (roundsTo_div hx hy hz (le_maxValue_of_le_seven (by decide) h)).near h

theorem double_sqrt_near (hx : x.isFinite) (hz : 0 ≤ double x) (h : √(double x) ≤ 7) :
  x.sqrt.isFinite ∧ |double x.sqrt - √(double x)| ≤ slip
  := by
  have habs : |√(double x)| ≤ 7 := by rwa [abs_of_nonneg (Real.sqrt_nonneg _)]
  exact (roundsTo_sqrt hx hz (le_maxValue_of_le_seven (by decide) habs)).near habs

/-- A number up to seven is rounded to single precision with an error of one slip. -/
theorem single_narrow_near (hx : x.isFinite) (h : |double x| ≤ 7) :
  (narrow x).isFinite ∧ |single (narrow x) - double x| ≤ slip
  := by
  have hr := (Moderate.mk hx (le_maxValue_of_le_seven (by decide) h)).rounds_narrow
  exact ⟨hr.isFinite, hr.near (by decide) (by decide) h⟩

theorem double_lt_iff (hx : x.isFinite) (hy : y.isFinite) :
  x < y ↔ double x < double y
  := decide_eq_true_iff.trans (lt_iff_value (canonical_double x) (canonical_double y) hx hy)

end

/-! ### Single precision -/

theorem single_sub_near {x y : Float32} (hx : x.isFinite) (hy : y.isFinite)
    (h : |single x - single y| ≤ 7) :
  (x - y).isFinite ∧ |single (x - y) - (single x - single y)| ≤ slip
  := by
  have hr := rounds_single_sub hx hy (le_maxValue_of_le_seven (by decide) h)
  exact ⟨hr.isFinite, hr.near (by decide) (by decide) h⟩

end ModelCar
