import ModelCar.Proofs.Number.Double
import ModelCar.Proofs.Number.Exact

/-!
# Single precision

The arithmetic of `Float32` on finite numbers, with bounds for what is lost by rounding: a
result is no further from the exact one than the next number of the format, and rounding to
an integer loses at most one half.
-/

namespace ModelCar

open Float.Model Float.Model.UnpackedFloat

variable {x y : Float32}

theorem single_lt_iff (hx : x.isFinite) (hy : y.isFinite) :
  x < y ↔ single x < single y
  := decide_eq_true_iff.trans (lt_iff_value (canonical_single x) (canonical_single y) hx hy)

theorem isFinite_iff :
  x.isFinite ↔ ¬ x.isNaN ∧ ¬ x.isInf
  := by
  show x.toModel.unpack.isFinite ↔ ¬ x.toModel.unpack.isNaN ∧ ¬ x.toModel.unpack.isInf
  cases x.toModel.unpack with
  | _ => simp [UnpackedFloat.isFinite, UnpackedFloat.isNaN, UnpackedFloat.isInf]

theorem not_isNaN_of_isFinite (h : x.isFinite) :
  ¬ x.isNaN
  := (isFinite_iff.mp h).1

theorem le_maxValue_single {r : ℝ} (h : |r| ≤ 32767) :
  |r| ≤ maxValue .binary32
  := by
  have hpow : (2 : ℝ) ^ (15 : ℤ) ≤ maxValue .binary32 := zpow_le_maxValue (by decide)
  norm_num at hpow
  linarith

theorem rounds_single_add (hx : x.isFinite) (hy : y.isFinite)
    (h : |single x + single y| ≤ maxValue .binary32) :
  Rounds .binary32 (single x + single y) (x + y).toModel.unpack
  := (rounds_add (canonical_single x) (canonical_single y) hx hy).packed (by decide) h

theorem rounds_single_sub (hx : x.isFinite) (hy : y.isFinite)
    (h : |single x - single y| ≤ maxValue .binary32) :
  Rounds .binary32 (single x - single y) (x - y).toModel.unpack
  := (rounds_sub (canonical_single x) (canonical_single y) hx hy).packed (by decide) h

theorem rounds_single_mul (hx : x.isFinite) (hy : y.isFinite)
    (h : |single x * single y| ≤ maxValue .binary32) :
  Rounds .binary32 (single x * single y) (x * y).toModel.unpack
  := (rounds_mul (canonical_single x) (canonical_single y) hx hy).packed (by decide) h

theorem rounds_single_div (hx : x.isFinite) (hy : y.isFinite) (hz : single y ≠ 0)
    (h : |single x / single y| ≤ maxValue .binary32) :
  Rounds .binary32 (single x / single y) (x / y).toModel.unpack
  := (rounds_div hx hy hz).packed (by decide) h

/-! ### Numbers -/

theorem single_zero :
  single 0.0 = 0
  := by
  have h : (0.0 : Float32).toModel.unpack = .zero .positive := rfl
  rw [single, h, value_zero]

theorem single_one :
  (1.0 : Float32).isFinite ∧ single 1.0 = 1
  := by
  have h : (1.0 : Float32).toModel.unpack = .finite .positive (2 ^ 23) (-23) (by decide) := rfl
  use rfl
  rw [single, h, value_positive]
  norm_num

theorem unpack_neg (x : Float32) :
  (-x).toModel.unpack = x.toModel.unpack.neg
  := by
  obtain ⟨hc, hr⟩ := fits_unpack (f := .binary32) (by decide) x.toBits.toBitVec
  apply unpack_pack (by decide) (canonical_neg hc)
  show InRange .binary32 x.toModel.unpack.neg
  change InRange .binary32 x.toModel.unpack at hr
  cases h : x.toModel.unpack <;> rw [h] at hr <;> exact hr

theorem isFinite_single_neg (x : Float32) :
  (-x).isFinite = x.isFinite
  := by
  show (-x).toModel.unpack.isFinite = x.toModel.unpack.isFinite
  rw [unpack_neg, ModelCar.isFinite_neg]

theorem single_neg (hx : x.isFinite) :
  (-x).isFinite ∧ single (-x) = -single x
  := by
  constructor
  · rw [isFinite_single_neg]
    exact hx
  · rw [single, unpack_neg, value_neg]
    rfl

/-- A word is converted exactly, if it is not too large. -/
theorem single_toFloat32 {n : Nat} (h : n < 2 ^ 24) :
  n.toUInt64.toFloat32.isFinite ∧ single n.toUInt64.toFloat32 = n
  := by
  have hn : n.toUInt64.toNat = n := by
    rw [UInt64.toNat_ofNat']
    omega
  have hx : ((n.toUInt64.toNat : ℤ) : ℝ) * 2 ^ (0 : ℤ) = n := by
    rw [hn, zpow_zero, mul_one, Int.cast_natCast]
  have hr : Rounds .binary32 n n.toUInt64.toFloat32.toModel.unpack := by
    have hr := rounds_normalize (f := .binary32) n.toUInt64.toNat 0 .positive
    rw [hx] at hr
    exact hr.packed (by decide) (natCast_le_maxValue (by decide) h)
  exact ⟨hr.isFinite, hr.value_eq (representable_natCast h)⟩

/-- A natural number that is not too large is represented exactly; small ones are converted
by a multiplication with one. -/
theorem single_ofNat {n : Nat} (h : n < 2 ^ 23) :
  (Float32.ofNat n).isFinite ∧ single (Float32.ofNat n) = n
  := by
  have hn : n < 2 ^ 24 := h.trans (by decide)
  have heq : Float32.ofNat n = n.toUInt64.toFloat32 * 1.0 := by
    simp only [Float32.ofNat, OfScientific.ofScientific, Float32.ofScientific]
    rw [dif_pos ⟨h, by decide⟩]
    rfl
  obtain ⟨hfinite, hvalue⟩ := single_toFloat32 hn
  obtain ⟨hone, h1⟩ := single_one
  have hr := rounds_single_mul hfinite hone
    (by rw [hvalue, h1, mul_one]; exact natCast_le_maxValue (by decide) hn)
  rw [← heq, hvalue, h1, mul_one] at hr
  exact ⟨hr.isFinite, hr.value_eq (representable_natCast hn)⟩

/-- An integer that is not too large is represented exactly. -/
theorem single_ofInt {n : ℤ} (h : |n| < 2 ^ 23) :
  (Float32.ofInt n).isFinite ∧ single (Float32.ofInt n) = n
  := by
  cases n with
  | ofNat n =>
      rw [Int.ofNat_eq_natCast, Nat.abs_cast] at h
      obtain ⟨hfinite, hvalue⟩ := single_ofNat (n := n) (by exact_mod_cast h)
      exact ⟨hfinite, by exact_mod_cast hvalue⟩
  | negSucc n =>
      rw [abs_of_neg (Int.negSucc_lt_zero n), Int.neg_negSucc] at h
      obtain ⟨hfinite, hvalue⟩ := single_ofNat (n := n + 1) (by exact_mod_cast h)
      obtain ⟨hneg, hvalue'⟩ := single_neg hfinite
      refine ⟨hneg, hvalue'.trans ?_⟩
      rw [hvalue, Int.cast_negSucc]

/-! ### Rounding -/

/-- Rounding moves a number by no more than a distance of which all multiples in its range
are numbers of the format. -/
theorem Rounds.abs_sub_le {f : Format} {r : ℝ} {u : UnpackedFloat} {e : ℤ}
    (h : Rounds f r u) (he : f.minExponent ≤ e) (hr : |r| < (2 ^ f.mantissaBits - 1) * 2 ^ e) :
  |value u - r| ≤ 2 ^ e
  := by
  have hpow : (0 : ℝ) < 2 ^ e := by positivity
  obtain ⟨hlo, hhi⟩ := abs_lt.mp hr
  have hfloor := Int.floor_le (r / 2 ^ e)
  have hceil := Int.lt_floor_add_one (r / 2 ^ e)
  rw [le_div_iff₀ hpow] at hfloor
  rw [div_lt_iff₀ hpow] at hceil
  generalize ⌊r / 2 ^ e⌋ = k at *
  have hklo : -(2 ^ f.mantissaBits : ℤ) < k := by
    have hlt : -(2 ^ f.mantissaBits - 1 : ℝ) < k + 1 := by
      apply lt_of_mul_lt_mul_right _ hpow.le
      linarith
    have : -(2 ^ f.mantissaBits - 1 : ℤ) < k + 1 := by exact_mod_cast hlt
    omega
  have hkhi : k + 1 < (2 ^ f.mantissaBits : ℤ) := by
    have hlt : (k : ℝ) < 2 ^ f.mantissaBits - 1 := by
      apply lt_of_mul_lt_mul_right _ hpow.le
      linarith
    have : k < (2 ^ f.mantissaBits - 1 : ℤ) := by exact_mod_cast hlt
    omega
  have hbelow : Representable f (k * 2 ^ e) := by
    refine ⟨k, e, abs_lt.mpr ⟨hklo, by omega⟩, he, rfl⟩
  have habove : Representable f ((k + 1 : ℤ) * 2 ^ e) := by
    refine ⟨k + 1, e, abs_lt.mpr ⟨by omega, hkhi⟩, he, rfl⟩
  have hge := h.ge_of_ge hbelow hfloor
  have hle := h.le_of_le habove (by push_cast; exact hceil.le)
  push_cast at hle
  rw [abs_le]
  constructor <;> linarith

theorem abs_nearestNat_sub_le (m : Nat) (e : ℤ) :
  |(nearestNat m e : ℝ) - m * 2 ^ e| ≤ 1 / 2
  := by
  cases e with
  | ofNat e =>
      rw [nearestNat, Nat.shiftLeft_eq, Int.ofNat_eq_natCast, zpow_natCast]
      norm_num
  | negSucc e =>
      have hpow : (0 : ℝ) < 2 ^ e := by positivity
      have hhalf : (m : ℝ) * 2 ^ Int.negSucc e = m / 2 ^ e / 2 := by
        rw [zpow_negSucc, pow_succ]
        field_simp
      have hlo : ((m / 2 ^ e : Nat) : ℝ) ≤ m / 2 ^ e := by
        rw [le_div_iff₀ hpow]
        exact_mod_cast Nat.div_mul_le_self m (2 ^ e)
      have hhi : (m : ℝ) / 2 ^ e < (m / 2 ^ e : Nat) + 1 := by
        rw [div_lt_iff₀ hpow]
        exact_mod_cast (Nat.div_lt_iff_lt_mul (Nat.two_pow_pos e)).mp (Nat.lt_succ_self _)
      rw [nearestNat, Nat.shiftRight_eq_div_pow, hhalf]
      generalize m / 2 ^ e = t at *
      -- The half of `t + 1`, rounded down, is at most half of one away from half of `t`.
      have hbelow : ((2 * ((t + 1) / 2) : Nat) : ℝ) ≤ (t + 1 : Nat) := by
        exact_mod_cast Nat.mul_div_le (t + 1) 2
      have habove : ((t + 1 : Nat) : ℝ) ≤ (2 * ((t + 1) / 2) + 1 : Nat) := by
        exact_mod_cast (by omega : t + 1 ≤ 2 * ((t + 1) / 2) + 1)
      push_cast at hbelow habove
      rw [abs_le]
      constructor <;> linarith

/-- The bounds of the result do not matter for a number that is not beyond an integer
between them. -/
theorem nearestInt_spec (lo hi : ℤ) {n : ℤ} (hx : x.isFinite) (hn : |single x| ≤ n)
    (hlo : lo ≤ -n) (hhi : n ≤ hi) :
  |nearestInt lo hi x - single x| ≤ 1 / 2 ∧ |nearestInt lo hi x| ≤ n
  := by
  have hheld {k : ℤ} (hk : |k - single x| ≤ 1 / 2)
      (heq : nearestInt lo hi x = k ∨ nearestInt lo hi x = max lo (min hi k)) :
      |nearestInt lo hi x - single x| ≤ 1 / 2 ∧ |nearestInt lo hi x| ≤ n := by
    have habs := abs_le_of_close hk hn
    obtain ⟨hklo, hkhi⟩ := abs_le.mp habs
    rw [min_eq_right (hkhi.trans hhi), max_eq_right (hlo.trans hklo), or_self] at heq
    rw [heq]
    exact ⟨hk, habs⟩
  obtain ⟨s, h⟩ | ⟨s, m, e, hm, h⟩ := finite_cases (u := x.toModel.unpack) hx
  · apply hheld (k := 0)
    · rw [single, h, value_zero]
      norm_num
    · left
      rw [nearestInt, h]
  · have hnear := abs_nearestNat_sub_le m e
    cases s with
    | positive =>
        apply hheld (k := nearestNat m e)
        · rw [single, h, value_positive]
          exact_mod_cast hnear
        · right
          rw [nearestInt, h]
    | negative =>
        apply hheld (k := -nearestNat m e)
        · rw [single, h, value_negative, Int.cast_neg, Int.cast_natCast, neg_sub_neg,
            abs_sub_comm]
          exact hnear
        · right
          rw [nearestInt, h]

end ModelCar
