import ModelCar.Proofs.Number.Packing

/-!
# The values of binary numbers

A finite binary number stands for a real number, its `value`.  The numbers of a format
are compared as their values are, because a larger exponent comes with a full mantissa.
-/

namespace ModelCar

open Float.Model Float.Model.UnpackedFloat

/-- The real number that an unpacked number stands for; zero for what is not finite. -/
noncomputable def value : UnpackedFloat → ℝ
  | .finite s m e _ => s.apply m * 2 ^ e
  | _ => 0

/-- The real numbers with a mantissa and an exponent that fit into a format, however large
the exponent is. -/
def Representable (f : Format) (v : ℝ) : Prop :=
  ∃ k q : ℤ, |k| < 2 ^ f.mantissaBits ∧ f.minExponent ≤ q ∧ v = k * 2 ^ q

variable {f : Format} {u v : UnpackedFloat}

/-! ### Formats -/

theorem mantissaBits_eq (f : Format) :
  f.mantissaBits = f.mantissaBitsWithoutImplicit + 1
  := Nat.add_comm 1 _

/-- The exponents reach below zero. -/
theorem minExponent_le_zero (f : Format) :
  f.minExponent ≤ 0
  := by
  have := f.hm
  rw [minExponent_eq]
  omega

/-! ### Representable numbers -/

theorem Representable.neg {r : ℝ} (h : Representable f r) :
  Representable f (-r)
  := by
  obtain ⟨k, q, hk, hq, rfl⟩ := h
  use -k, q
  rw [abs_neg]
  refine ⟨hk, hq, ?_⟩
  push_cast
  ring

theorem representable_zpow {q : ℤ} (h : f.minExponent ≤ q) :
  Representable f (2 ^ q)
  := by
  use 1, q
  refine ⟨?_, h, ?_⟩
  · rw [abs_one]
    exact one_lt_pow₀ one_lt_two (by rw [mantissaBits_eq]; omega)
  · rw [Int.cast_one, one_mul]

theorem representable_intCast {k : ℤ} (h : |k| < 2 ^ f.mantissaBits) :
  Representable f k
  := by
  use k, 0
  refine ⟨h, minExponent_le_zero f, ?_⟩
  rw [zpow_zero, mul_one]

theorem representable_natCast {n : Nat} (h : n < 2 ^ f.mantissaBits) :
  Representable f n
  := by
  have hn : |(n : ℤ)| < 2 ^ f.mantissaBits := by
    rw [abs_of_nonneg (Int.natCast_nonneg n)]
    exact_mod_cast h
  exact_mod_cast representable_intCast hn

theorem representable_zero (f : Format) :
  Representable f 0
  := by
  have h : |(0 : ℤ)| < 2 ^ f.mantissaBits := by
    rw [abs_zero]
    positivity
  exact_mod_cast representable_intCast h

theorem representable_half {f : Format} (hf : f.minExponent ≤ -1) :
  Representable f (1 / 2)
  := by
  have h : Representable f (2 ^ (-1 : ℤ)) := representable_zpow hf
  rwa [zpow_neg_one, ← one_div] at h

theorem abs_apply (s : Sign) (m : Nat) :
  |s.apply m| = m
  := by cases s <;> simp [Sign.apply]

theorem abs_value_finite (s : Sign) (m : Nat) (e : ℤ) (hm : 0 < m) :
  |value (.finite s m e hm)| = m * 2 ^ e
  := by
  have hpow : (0 : ℝ) < 2 ^ e := by positivity
  rw [value, abs_mul, ← Int.cast_abs, abs_apply, Int.cast_natCast, abs_of_pos hpow]

/-- The value of a number of a format is representable in it. -/
theorem representable_value (h : Canonical f u) :
  Representable f (value u)
  := by
  cases u with
  | finite s m e hm =>
      obtain ⟨hlt, hmin, -⟩ := h
      use s.apply m, e
      rw [abs_apply]
      exact ⟨by exact_mod_cast hlt, hmin, rfl⟩
  | _ => exact representable_zero f

/-- A positive number lies between two neighbouring powers of two. -/
theorem exists_zpow_le {r : ℝ} {e : ℤ} (h : 2 ^ e ≤ r) :
  ∃ q, e ≤ q ∧ (2 : ℝ) ^ q ≤ r ∧ r < 2 ^ (q + 1)
  := by
  have hpos : 0 < r := lt_of_lt_of_le (by positivity) h
  have hlo : ((2 : ℕ) : ℝ) ^ Int.log 2 r ≤ r := Int.zpow_log_le_self Nat.one_lt_two hpos
  have hhi : r < ((2 : ℕ) : ℝ) ^ (Int.log 2 r + 1) := Int.lt_zpow_succ_log_self Nat.one_lt_two r
  rw [Nat.cast_two] at hlo hhi
  have := (zpow_lt_zpow_iff_right₀ (one_lt_two : (1 : ℝ) < 2)).mp (h.trans_lt hhi)
  use Int.log 2 r
  exact ⟨by omega, hlo, hhi⟩

/-! ### The range -/

/-- The exponent of a number is not too large if its value is not. -/
theorem inRange_of_lt (hf : 1 < f.exponentBits) (h : Canonical f u)
    (hlt : |value u| < 2 ^ (f.exponentBias + 1)) :
  InRange f u
  := by
  cases u with
  | finite s m e hm =>
      obtain ⟨-, hmin, hfull⟩ := h
      have htwo := two_pow_exponentBits f
      have hpow : 2 ^ 2 ≤ 2 ^ f.exponentBits := Nat.pow_le_pow_right Nat.two_pos hf
      rw [minExponent_eq] at hmin hfull
      show e ≤ (f.exponentBias : ℤ) - f.mantissaBitsWithoutImplicit
      by_contra he
      have hfull : 2 ^ f.mantissaBitsWithoutImplicit ≤ m := hfull.resolve_right (by omega)
      apply absurd hlt
      rw [not_lt, abs_value_finite]
      calc (2 : ℝ) ^ (f.exponentBias + 1)
          = 2 ^ f.mantissaBitsWithoutImplicit
            * 2 ^ ((f.exponentBias : ℤ) - f.mantissaBitsWithoutImplicit + 1) := by
            rw [← zpow_natCast, ← zpow_natCast, ← zpow_add₀ two_ne_zero]
            congr 1
            push_cast
            ring
        _ ≤ m * 2 ^ e := by
            gcongr
            · exact_mod_cast hfull
            · exact one_le_two
            · omega
  | _ => trivial

/-- The largest number of a format. -/
noncomputable def maxValue (f : Format) : ℝ :=
  (2 ^ f.mantissaBits - 1) * 2 ^ ((f.exponentBias : ℤ) - f.mantissaBitsWithoutImplicit)

theorem maxValue_lt (f : Format) :
  maxValue f < 2 ^ (f.exponentBias + 1)
  := by
  calc maxValue f
      < 2 ^ f.mantissaBits * 2 ^ ((f.exponentBias : ℤ) - f.mantissaBitsWithoutImplicit) := by
        apply mul_lt_mul_of_pos_right
        · linarith
        · positivity
    _ = 2 ^ (f.exponentBias + 1) := by
        rw [← zpow_natCast, ← zpow_natCast, ← zpow_add₀ two_ne_zero, mantissaBits_eq]
        congr 1
        push_cast
        ring

theorem representable_maxValue (hf : 1 < f.exponentBits) :
  Representable f (maxValue f)
  := by
  have htwo := two_pow_exponentBits f
  have hpow : 2 ^ 2 ≤ 2 ^ f.exponentBits := Nat.pow_le_pow_right Nat.two_pos hf
  have hone : (1 : ℤ) ≤ 2 ^ f.mantissaBits := one_le_pow₀ (by decide)
  use 2 ^ f.mantissaBits - 1, (f.exponentBias : ℤ) - f.mantissaBitsWithoutImplicit
  refine ⟨?_, ?_, ?_⟩
  · rw [abs_of_nonneg (by linarith)]
    omega
  · rw [minExponent_eq]
    omega
  · rw [maxValue]
    push_cast
    rfl

/-- The powers of two in a format. -/
theorem zpow_le_maxValue {k : ℤ} (h : k ≤ f.exponentBias) :
  2 ^ k ≤ maxValue f
  := by
  have hone : (1 : ℝ) ≤ 2 ^ f.mantissaBitsWithoutImplicit := one_le_pow₀ one_le_two
  calc (2 : ℝ) ^ k ≤ 2 ^ (f.exponentBias : ℤ) := zpow_le_zpow_right₀ one_le_two h
    _ = 2 ^ f.mantissaBitsWithoutImplicit
          * 2 ^ ((f.exponentBias : ℤ) - f.mantissaBitsWithoutImplicit) := by
        rw [← zpow_natCast 2 f.mantissaBitsWithoutImplicit, ← zpow_add₀ two_ne_zero]
        congr 1
        ring
    _ ≤ maxValue f := by
        rw [maxValue, mantissaBits_eq, pow_succ]
        gcongr
        linarith

theorem natCast_le_maxValue (hf : f.mantissaBits ≤ f.exponentBias) {n : Nat}
    (h : n < 2 ^ f.mantissaBits) :
  |(n : ℝ)| ≤ maxValue f
  := by
  have hn : (n : ℝ) ≤ 2 ^ (f.mantissaBits : ℤ) := by exact_mod_cast h.le
  rw [abs_of_nonneg (Nat.cast_nonneg n)]
  exact hn.trans (zpow_le_maxValue (by exact_mod_cast hf))

theorem abs_value_le (h : Canonical f u) (hr : InRange f u) :
  |value u| ≤ maxValue f
  := by
  have hone : (1 : ℝ) ≤ 2 ^ f.mantissaBits := one_le_pow₀ one_le_two
  cases u with
  | finite s m e hm =>
      obtain ⟨hlt, -, -⟩ := h
      have he : e ≤ (f.exponentBias : ℤ) - f.mantissaBitsWithoutImplicit := hr
      have hle : (m : ℝ) ≤ 2 ^ f.mantissaBits - 1 := by
        have : (m : ℝ) + 1 ≤ 2 ^ f.mantissaBits := by exact_mod_cast hlt
        linarith
      rw [abs_value_finite]
      apply mul_le_mul hle (zpow_le_zpow_right₀ one_le_two he)
      · positivity
      · linarith
  | _ =>
      show |(0 : ℝ)| ≤ maxValue f
      rw [abs_zero]
      apply mul_nonneg
      · linarith
      · positivity

/-! ### Order -/

/-- A larger exponent makes a larger number. -/
theorem lt_of_exponent_lt {m n : Nat} {d e : ℤ} (hm : m < 2 ^ f.mantissaBits)
    (hn : 2 ^ f.mantissaBitsWithoutImplicit ≤ n) (h : d < e) :
  (m * 2 ^ d : ℝ) < n * 2 ^ e
  := by
  calc (m * 2 ^ d : ℝ) < 2 ^ f.mantissaBits * 2 ^ d := by
        gcongr
        exact_mod_cast hm
    _ = 2 ^ f.mantissaBitsWithoutImplicit * 2 ^ (d + 1) := by
        rw [mantissaBits_eq, pow_succ, zpow_add_one₀ two_ne_zero]
        ring
    _ ≤ n * 2 ^ e := by
        gcongr
        · exact_mod_cast hn
        · exact one_le_two
        · omega

theorem compare_then_eq_lt_iff {d e : ℤ} {m n : Nat} :
  (compare d e).then (compare m n) = .lt ↔ d < e ∨ d = e ∧ m < n
  := by
  rw [Ordering.then_eq_lt, compare_lt_iff_lt, compare_eq_iff_eq, compare_lt_iff_lt]

/-- Exponents are compared first, and then mantissas. -/
theorem compare_eq_lt_iff {m n : Nat} {d e : ℤ} {s t : Sign} {hm : 0 < m} {hn : 0 < n}
    (hu : Canonical f (.finite s m d hm)) (hv : Canonical f (.finite t n e hn)) :
  (compare d e).then (compare m n) = .lt ↔ (m * 2 ^ d : ℝ) < n * 2 ^ e
  := by
  obtain ⟨hmlt, hmmin, hmfull⟩ := hu
  obtain ⟨hnlt, hnmin, hnfull⟩ := hv
  rw [compare_then_eq_lt_iff]
  obtain h | rfl | h := lt_trichotomy d e
  · have hfull : 2 ^ f.mantissaBitsWithoutImplicit ≤ n := hnfull.resolve_right (by omega)
    simp only [h, lt_of_exponent_lt hmlt hfull h, true_or]
  · have hpow : (0 : ℝ) < 2 ^ d := by positivity
    simp [hpow]
  · have hfull : 2 ^ f.mantissaBitsWithoutImplicit ≤ m := hmfull.resolve_right (by omega)
    have := lt_of_exponent_lt hnlt hfull h
    simp only [this.not_gt, iff_false]
    omega

theorem value_zero (s : Sign) :
  value (.zero s) = 0
  := rfl

theorem value_positive (m : Nat) (e : ℤ) (hm : 0 < m) :
  value (.finite .positive m e hm) = m * 2 ^ e
  := by
  rw [value, Sign.apply, Int.cast_natCast]

theorem value_negative (m : Nat) (e : ℤ) (hm : 0 < m) :
  value (.finite .negative m e hm) = -(m * 2 ^ e)
  := by
  rw [value, Sign.apply, Int.cast_neg, Int.cast_natCast, neg_mul]

/-- A finite number is a zero, or it has a mantissa. -/
theorem finite_cases (h : u.isFinite) :
  (∃ s, u = .zero s) ∨ ∃ s m e hm, u = .finite s m e hm
  := by
  cases u with
  | notANumber => cases h
  | infinity => cases h
  | zero s => exact .inl ⟨s, rfl⟩
  | finite s m e hm => exact .inr ⟨s, m, e, hm, rfl⟩

/-- Numbers of a format are compared as their values are. -/
theorem lt_iff_value (hu : Canonical f u) (hv : Canonical f v) (huf : u.isFinite)
    (hvf : v.isFinite) :
  u.lt v ↔ value u < value v
  := by
  have hpos {m : Nat} (e : ℤ) (hm : 0 < m) : (0 : ℝ) < m * 2 ^ e := by positivity
  rw [UnpackedFloat.lt, beq_iff_eq]
  obtain ⟨s, rfl⟩ | ⟨s, m, d, hm, rfl⟩ := finite_cases huf
  · obtain ⟨t, rfl⟩ | ⟨t, n, e, hn, rfl⟩ := finite_cases hvf
    · simp [UnpackedFloat.compare, value_zero]
    · cases t with
      | negative => simp [UnpackedFloat.compare, value_negative, value_zero, (hpos e hn).le]
      | positive => simp [UnpackedFloat.compare, value_positive, value_zero, hpos e hn]
  · obtain ⟨t, rfl⟩ | ⟨t, n, e, hn, rfl⟩ := finite_cases hvf
    · cases s with
      | negative => simp [UnpackedFloat.compare, value_negative, value_zero, hpos d hm]
      | positive => simp [UnpackedFloat.compare, value_positive, value_zero, (hpos d hm).le]
    · have := hpos d hm
      have := hpos e hn
      cases s with
      | negative =>
          cases t with
          | negative =>
              rw [value_negative, value_negative, neg_lt_neg_iff, ← compare_eq_lt_iff hv hu]
              simp [UnpackedFloat.compare, Ordering.swap_then, Int.compare_swap, Nat.compare_swap]
          | positive =>
              simp only [UnpackedFloat.compare, value_negative, value_positive, true_iff]
              linarith
      | positive =>
          cases t with
          | negative =>
              simp only [UnpackedFloat.compare, value_negative, value_positive]
              simp
              linarith
          | positive =>
              rw [value_positive, value_positive, ← compare_eq_lt_iff hu hv]
              simp [UnpackedFloat.compare]

theorem compare_swap (hu : u.isFinite) (hv : v.isFinite) :
  ∃ o, u.compare v = some o ∧ v.compare u = some o.swap
  := by
  obtain ⟨s, rfl⟩ | ⟨s, m, d, hm, rfl⟩ := finite_cases hu
  · obtain ⟨t, rfl⟩ | ⟨t, n, e, hn, rfl⟩ := finite_cases hv
    · exact ⟨.eq, rfl, rfl⟩
    · cases t <;> exact ⟨_, rfl, rfl⟩
  · obtain ⟨t, rfl⟩ | ⟨t, n, e, hn, rfl⟩ := finite_cases hv
    · cases s <;> exact ⟨_, rfl, rfl⟩
    · cases s <;> cases t <;>
        simp [UnpackedFloat.compare, Ordering.swap_then, Int.compare_swap, Nat.compare_swap]

/-- Of two finite numbers one is not larger than the other, or else it is. -/
theorem le_iff_not_lt (hu : u.isFinite) (hv : v.isFinite) :
  u.le v ↔ ¬ v.lt u
  := by
  obtain ⟨o, huv, hvu⟩ := compare_swap hu hv
  rw [UnpackedFloat.le, UnpackedFloat.lt, huv, hvu]
  cases o <;> decide

theorem le_iff_value (hu : Canonical f u) (hv : Canonical f v) (huf : u.isFinite)
    (hvf : v.isFinite) :
  u.le v ↔ value u ≤ value v
  := by
  rw [le_iff_not_lt huf hvf, lt_iff_value hv hu hvf huf, not_lt]

end ModelCar
