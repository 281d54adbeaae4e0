import ModelCar.Proofs.Number.Arithmetic

/-!
# Double precision

The arithmetic of `Float` on finite numbers, as long as no result is larger than the
largest number: every result is the exact one, rounded.  A `Float32` is taken over
exactly, and a `Float` that is not too large is rounded to a `Float32`.
-/

namespace ModelCar

open Float.Model Float.Model.UnpackedFloat

/-- The real number that a finite number in double precision stands for. -/
noncomputable def double (x : Float) : ℝ :=
  value x.toModel.unpack

/-- The real number that a finite number in single precision stands for. -/
noncomputable def single (x : Float32) : ℝ :=
  value x.toModel.unpack

/-- A number in double precision is a real number, rounded. -/
def RoundsTo (r : ℝ) (x : Float) : Prop :=
  Rounds .binary64 r x.toModel.unpack

theorem canonical_double (x : Float) :
  Canonical .binary64 x.toModel.unpack
  := (fits_unpack (by decide) _).1

theorem canonical_single (x : Float32) :
  Canonical .binary32 x.toModel.unpack
  := (fits_unpack (by decide) _).1

theorem representable_double (x : Float) :
  Representable .binary64 (double x)
  := representable_value (canonical_double x)

theorem abs_double_le (x : Float) :
  |double x| ≤ maxValue .binary64
  := by
  obtain ⟨hc, hr⟩ := fits_unpack (f := .binary64) (by decide) x.toBits.toBitVec
  exact abs_value_le hc hr

variable {x y : Float}

theorem roundsTo_add (hx : x.isFinite) (hy : y.isFinite)
    (h : |double x + double y| ≤ maxValue .binary64) :
  RoundsTo (double x + double y) (x + y)
  := (rounds_add (canonical_double x) (canonical_double y) hx hy).packed (by decide) h

theorem roundsTo_sub (hx : x.isFinite) (hy : y.isFinite)
    (h : |double x - double y| ≤ maxValue .binary64) :
  RoundsTo (double x - double y) (x - y)
  := (rounds_sub (canonical_double x) (canonical_double y) hx hy).packed (by decide) h

theorem roundsTo_mul (hx : x.isFinite) (hy : y.isFinite)
    (h : |double x * double y| ≤ maxValue .binary64) :
  RoundsTo (double x * double y) (x * y)
  := (rounds_mul (canonical_double x) (canonical_double y) hx hy).packed (by decide) h

theorem roundsTo_div (hx : x.isFinite) (hy : y.isFinite) (hz : double y ≠ 0)
    (h : |double x / double y| ≤ maxValue .binary64) :
  RoundsTo (double x / double y) (x / y)
  := (rounds_div hx hy hz).packed (by decide) h

theorem roundsTo_sqrt (hx : x.isFinite) (hz : 0 ≤ double x)
    (h : |√(double x)| ≤ maxValue .binary64) :
  RoundsTo (√(double x)) x.sqrt
  := (rounds_sqrt hx hz).packed (by decide) h

/-! ### Natural numbers -/

theorem double_zero :
  (0.0 : Float).isFinite ∧ double 0.0 = 0
  := by
  have h : (0.0 : Float).toModel.unpack = .zero .positive := rfl
  use rfl
  rw [double, h, value_zero]

theorem double_one :
  (1.0 : Float).isFinite ∧ double 1.0 = 1
  := by
  have h : (1.0 : Float).toModel.unpack = .finite .positive (2 ^ 52) (-52) (by decide) := rfl
  use rfl
  rw [double, h, value_positive]
  norm_num

theorem double_neg_one :
  (-1.0 : Float).isFinite ∧ double (-1.0) = -1
  := by
  have h : (-1.0 : Float).toModel.unpack = .finite .negative (2 ^ 52) (-52) (by decide) := rfl
  use rfl
  rw [double, h, value_negative]
  norm_num

/-- A word is converted exactly, if it is not too large. -/
theorem double_toFloat {n : Nat} (h : n < 2 ^ 53) :
  n.toUInt64.toFloat.isFinite ∧ double n.toUInt64.toFloat = n
  := by
  have hn : n.toUInt64.toNat = n := by
    rw [UInt64.toNat_ofNat']
    omega
  have hx : ((n.toUInt64.toNat : ℤ) : ℝ) * 2 ^ (0 : ℤ) = n := by
    rw [hn, zpow_zero, mul_one, Int.cast_natCast]
  have hr : RoundsTo n n.toUInt64.toFloat := by
    have hr := rounds_normalize (f := .binary64) n.toUInt64.toNat 0 .positive
    rw [hx] at hr
    exact hr.packed (by decide) (natCast_le_maxValue (by decide) h)
  exact ⟨hr.isFinite, hr.value_eq (representable_natCast h)⟩

/-- Small natural numbers are converted by a multiplication with one. -/
theorem ofNat_eq {n : Nat} (h : n < 2 ^ 53) :
  Float.ofNat n = n.toUInt64.toFloat * 1.0
  := by
  simp only [Float.ofNat, OfScientific.ofScientific, Float.ofScientific]
  rw [dif_pos ⟨h, by decide⟩]
  rfl

/-- A natural number that is not too large is represented exactly. -/
theorem double_ofNat {n : Nat} (h : n < 2 ^ 53) :
  (Float.ofNat n).isFinite ∧ double (Float.ofNat n) = n
  := by
  obtain ⟨hfinite, hn⟩ := double_toFloat h
  obtain ⟨hone, h1⟩ := double_one
  have hr := roundsTo_mul hfinite hone
    (by rw [hn, h1, mul_one]; exact natCast_le_maxValue (by decide) h)
  rw [← ofNat_eq h, hn, h1, mul_one] at hr
  exact ⟨hr.isFinite, hr.value_eq (representable_natCast h)⟩

/-- Division by a natural number does not make a number larger. -/
theorem roundsTo_div_ofNat (hx : x.isFinite) {n : Nat} (hn : 0 < n) (h : n < 2 ^ 53) :
  RoundsTo (double x / n) (x / Float.ofNat n)
  := by
  obtain ⟨hfinite, heq⟩ := double_ofNat h
  have hone : (1 : ℝ) ≤ n := by exact_mod_cast hn
  have hle : |double x / n| ≤ maxValue .binary64 := by
    rw [abs_div, Nat.abs_cast]
    exact (div_le_self (abs_nonneg _) hone).trans (abs_double_le x)
  rw [← heq] at hone hle ⊢
  exact roundsTo_div hx hfinite (by linarith) hle

/-! ### Comparison -/

theorem double_le_iff (hx : x.isFinite) (hy : y.isFinite) :
  x ≤ y ↔ double x ≤ double y
  := decide_eq_true_iff.trans (le_iff_value (canonical_double x) (canonical_double y) hx hy)

theorem single_le_iff {x y : Float32} (hx : x.isFinite) (hy : y.isFinite) :
  x ≤ y ↔ single x ≤ single y
  := decide_eq_true_iff.trans (le_iff_value (canonical_single x) (canonical_single y) hx hy)

/-! ### Absolute values -/

theorem value_abs (u : UnpackedFloat) :
  value u.abs = |value u|
  := by
  cases u with
  | finite s m e hm =>
      rw [abs_value_finite]
      exact value_positive m e hm
  | _ => exact abs_zero.symm

theorem unpack_abs (x : Float32) :
  x.abs.toModel.unpack = x.toModel.unpack.abs
  := by
  obtain ⟨hc, hr⟩ := fits_unpack (f := .binary32) (by decide) x.toBits.toBitVec
  apply unpack_pack (by decide)
  · show Canonical .binary32 x.toModel.unpack.abs
    change Canonical .binary32 x.toModel.unpack at hc
    cases h : x.toModel.unpack <;> rw [h] at hc <;> exact hc
  · show InRange .binary32 x.toModel.unpack.abs
    change InRange .binary32 x.toModel.unpack at hr
    cases h : x.toModel.unpack <;> rw [h] at hr <;> exact hr

theorem single_abs (x : Float32) :
  single x.abs = |single x|
  := by
  rw [single, unpack_abs, value_abs]
  rfl

theorem isFinite_abs (x : Float32) :
  x.abs.isFinite = x.isFinite
  := by
  show x.abs.toModel.unpack.isFinite = x.toModel.unpack.isFinite
  rw [unpack_abs]
  cases x.toModel.unpack <;> rfl

/-! ### Conversions -/

theorem abs_single_le (x : Float32) :
  |single x| ≤ maxValue .binary32
  := by
  obtain ⟨hc, hr⟩ := fits_unpack (f := .binary32) (by decide) x.toBits.toBitVec
  exact abs_value_le hc hr

/-- Every number in single precision is one in double precision. -/
theorem representable_single (x : Float32) :
  Representable .binary64 (single x)
  := by
  obtain ⟨k, q, hk, hq, h⟩ := representable_value (canonical_single x)
  refine ⟨k, q, hk.trans (by decide), ?_, h⟩
  exact le_trans (by decide) hq

theorem maxValue_single_le :
  maxValue .binary32 ≤ maxValue .binary64
  := by
  have h : maxValue .binary32 < 2 ^ (128 : ℤ) := maxValue_lt .binary32
  exact h.le.trans (zpow_le_maxValue (by decide))

/-- A number in single precision is taken over exactly. -/
theorem double_widen {x : Float32} (hx : x.isFinite) :
  (widen x).isFinite ∧ double (widen x) = single x
  := by
  have hmax := (abs_single_le x).trans maxValue_single_le
  have hrep := representable_single x
  replace hx : x.toModel.unpack.isFinite := hx
  simp only [single] at *
  unfold widen
  obtain ⟨s, h⟩ | ⟨s, m, e, hm, h⟩ := finite_cases hx
  · rw [h]
    cases s <;> exact ⟨rfl, rfl⟩
  · rw [h] at hmax hrep ⊢
    have hr := (rounds_round (f := .binary64) s hm e).packed (by decide) hmax
    exact ⟨hr.isFinite, hr.value_eq hrep⟩

/-- A finite number in double precision that is not larger than the numbers in single
precision. -/
structure Moderate (x : Float) : Prop where
  isFinite : x.isFinite
  abs_le : |double x| ≤ maxValue .binary32

theorem Moderate.abs_le_zpow (hx : Moderate x) :
  |double x| ≤ 2 ^ (128 : ℤ)
  := by
  have hmax : maxValue .binary32 < 2 ^ (128 : ℤ) := maxValue_lt .binary32
  exact hx.abs_le.trans hmax.le

theorem moderate_of_abs_eq_one (hx : x.isFinite) (h : |double x| = 1) :
  Moderate x
  := by
  use hx
  rw [h, ← zpow_zero (2 : ℝ)]
  exact zpow_le_maxValue (by decide)

theorem moderate_widen {x : Float32} (h : x.isFinite) :
  Moderate (widen x)
  := by
  obtain ⟨hfinite, hx⟩ := double_widen h
  use hfinite
  rw [hx]
  exact abs_single_le x

/-- A moderate number is rounded to single precision. -/
theorem Moderate.rounds_narrow (h : Moderate x) :
  Rounds .binary32 (double x) (narrow x).toModel.unpack
  := by
  obtain ⟨hx, h⟩ := h
  replace hx : x.toModel.unpack.isFinite := hx
  simp only [double] at *
  unfold narrow
  obtain ⟨s, hu⟩ | ⟨s, m, e, hm, hu⟩ := finite_cases hx
  · rw [hu] at h ⊢
    exact (rounds_zero .binary32 s).packed (by decide) h
  · rw [hu] at h ⊢
    exact (rounds_round s hm e).packed (by decide) h

/-- Rounding to single precision does not pass a number in single precision. -/
theorem Moderate.abs_narrow_le (hx : Moderate x) {b : ℝ} (hb : Representable .binary32 b)
    (h : |double x| ≤ b) :
  |single (narrow x)| ≤ b
  := hx.rounds_narrow.abs_value_le hb h

end ModelCar
