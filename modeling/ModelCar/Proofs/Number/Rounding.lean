import ModelCar.Proofs.Number.Value

/-!
# Rounding

Rounding goes from a real number to a number of a format and never passes another number
of the format: `Rounds`.  So what lies between two numbers of a format is rounded to a
number between them.  The arithmetic of binary numbers is the exact one, rounded.
-/

namespace ModelCar

open Float.Model Float.Model.UnpackedFloat

/-! ### Mantissas with residual bits -/

/-- The residual bits of a mantissa tell where a number lies: at the mantissa, or else
below, at or above the middle between it and the next one. -/
inductive Describes : ExtendedMantissa → ℝ → Prop
  | exact {m : Nat} {y : ℝ} (h : y = m) : Describes ⟨m, false, false⟩ y
  | below {m : Nat} {y : ℝ} (hlo : m < y) (hhi : y < m + 1 / 2) : Describes ⟨m, false, true⟩ y
  | middle {m : Nat} {y : ℝ} (h : y = m + 1 / 2) : Describes ⟨m, true, false⟩ y
  | above {m : Nat} {y : ℝ} (hlo : m + 1 / 2 < y) (hhi : y < m + 1) : Describes ⟨m, true, true⟩ y

variable {em : ExtendedMantissa} {y : ℝ}

theorem Describes.mantissa_le (h : Describes em y) :
  em.mantissa ≤ y ∧ y < em.mantissa + 1
  := by
  cases h with
  | exact h => exact ⟨by linarith, by linarith⟩
  | below hlo hhi => exact ⟨by linarith, by linarith⟩
  | middle h => exact ⟨by linarith, by linarith⟩
  | above hlo hhi => exact ⟨by linarith, by linarith⟩

theorem shiftRightOne_even (k : Nat) (r s : Bool) :
  ExtendedMantissa.shiftRightOne ⟨2 * k, r, s⟩ = ⟨k, false, r || s⟩
  := by simp [ExtendedMantissa.shiftRightOne]

theorem shiftRightOne_odd (k : Nat) (r s : Bool) :
  ExtendedMantissa.shiftRightOne ⟨2 * k + 1, r, s⟩ = ⟨k, true, r || s⟩
  := by
  have : (2 * k + 1) / 2 = k := by omega
  simp [ExtendedMantissa.shiftRightOne, this]

/-- Dropping the last bit halves the number. -/
theorem Describes.shiftRightOne (h : Describes em y) :
  Describes em.shiftRightOne (y / 2)
  := by
  obtain ⟨m, r, s⟩ := em
  obtain ⟨k, rfl | rfl⟩ := Nat.even_or_odd' m
  · rw [shiftRightOne_even]
    cases h <;> push_cast at *
    case exact h => exact .exact (by linarith)
    case below hlo hhi => exact .below (by linarith) (by linarith)
    case middle h => exact .below (by linarith) (by linarith)
    case above hlo hhi => exact .below (by linarith) (by linarith)
  · rw [shiftRightOne_odd]
    cases h <;> push_cast at *
    case exact h => exact .middle (by linarith)
    case below hlo hhi => exact .above (by linarith) (by linarith)
    case middle h => exact .above (by linarith) (by linarith)
    case above hlo hhi => exact .above (by linarith) (by linarith)

theorem Describes.shiftRight (h : Describes em y) (n : Nat) :
  Describes (em >>> n) (y / 2 ^ n)
  := by
  show Describes (n.repeat ExtendedMantissa.shiftRightOne em) _
  induction n with
  | zero => simpa [Nat.repeat] using h
  | succ n ih =>
      rw [Nat.repeat, pow_succ, ← div_div]
      exact ih.shiftRightOne

theorem mantissa_le_rounded (em : ExtendedMantissa) :
  em.mantissa ≤ em.roundedMantissa ∧ em.roundedMantissa ≤ em.mantissa + 1
  := by
  obtain ⟨m, r, s⟩ := em
  cases r <;> cases s <;>
    simp only [ExtendedMantissa.roundedMantissa, ExtendedMantissa.accuracy,
      Accuracy.roundToNearestEven] <;>
    omega

/-- Rounding a mantissa does not pass a whole number. -/
theorem Describes.le_rounded (h : Describes em y) {k : ℤ} (hk : k ≤ y) :
  k ≤ em.roundedMantissa
  := by
  have hlt : k < em.mantissa + 1 := by
    have := hk.trans_lt h.mantissa_le.2
    exact_mod_cast this
  have := (mantissa_le_rounded em).1
  omega

theorem Describes.rounded_le (h : Describes em y) {k : ℤ} (hk : y ≤ k) :
  em.roundedMantissa ≤ k
  := by
  have hle := (mantissa_le_rounded em).2
  have hinexact (hlt : em.mantissa < y) : em.roundedMantissa ≤ k := by
    have : (em.mantissa : ℤ) < k := by exact_mod_cast hlt.trans_le hk
    omega
  cases h with
  | exact h =>
      rw [h] at hk
      exact_mod_cast hk
  | below hlo hhi => exact hinexact hlo
  | middle h => exact hinexact (by linarith)
  | above hlo hhi => exact hinexact (by linarith)

/-! ### Rounding to a format -/

variable {f : Format}

/-- A representable number is a multiple of a power of two, or else small compared with
it. -/
theorem Representable.cases {v : ℝ} (h : Representable f v) (e : ℤ) :
  (∃ k : ℤ, v = k * 2 ^ e) ∨
    f.minExponent < e ∧ |v| < 2 ^ f.mantissaBitsWithoutImplicit * 2 ^ e
  := by
  obtain ⟨k, q, hk, hq, rfl⟩ := h
  obtain hle | hlt := le_or_gt e q
  · left
    use k * 2 ^ (q - e).toNat
    have hpow : (2 : ℝ) ^ (q - e).toNat * 2 ^ e = 2 ^ q := by
      rw [← zpow_natCast, ← zpow_add₀ two_ne_zero]
      congr 1
      omega
    push_cast
    rw [mul_assoc, hpow]
  · right
    use hq.trans_lt hlt
    rw [abs_mul, abs_of_pos (by positivity : (0 : ℝ) < 2 ^ q)]
    calc |(k : ℝ)| * 2 ^ q < 2 ^ f.mantissaBits * 2 ^ q := by
          gcongr
          exact_mod_cast hk
      _ = 2 ^ f.mantissaBitsWithoutImplicit * 2 ^ (q + 1) := by
          rw [mantissaBits_eq, pow_succ, zpow_add_one₀ two_ne_zero]
          ring
      _ ≤ 2 ^ f.mantissaBitsWithoutImplicit * 2 ^ e := by
          gcongr
          · exact one_le_two
          · omega

theorem mantissa_ofMantissaAndAccuracy (m : Nat) (a : Accuracy) :
  (ExtendedMantissa.ofMantissaAndAccuracy m a).mantissa = m
  := by
  cases a with
  | exact => rfl
  | inexact o => cases o <;> rfl

/-- The target exponent is large enough for the digits of a mantissa to fit. -/
theorem shifted_lt {m : Nat} {e t : ℤ} (hy : y < m + 1)
    (ht : m.log2 + 1 + e - f.mantissaBits ≤ t) :
  y * 2 ^ e / 2 ^ t < 2 ^ f.mantissaBits
  := by
  have hlt : (m : ℝ) + 1 ≤ 2 ^ (m.log2 + 1) := by exact_mod_cast Nat.lt_log2_self
  calc y * 2 ^ e / 2 ^ t < 2 ^ (m.log2 + 1) * 2 ^ e / 2 ^ t := by
        gcongr
        exact hy.trans_le hlt
    _ = 2 ^ ((m.log2 + 1 : Nat) + e - t) := by
        rw [zpow_sub₀ two_ne_zero, zpow_add₀ two_ne_zero, zpow_natCast]
    _ ≤ 2 ^ (f.mantissaBits : ℤ) := by
        apply zpow_le_zpow_right₀ one_le_two
        push_cast
        omega
    _ = 2 ^ f.mantissaBits := zpow_natCast ..

/-- The target exponent is small enough to keep as many digits as fit. -/
theorem le_shifted {m : Nat} {e t : ℤ} (hm : m ≠ 0) (hy : m ≤ y)
    (ht : t = m.log2 + e - f.mantissaBitsWithoutImplicit) :
  2 ^ f.mantissaBitsWithoutImplicit ≤ y * 2 ^ e / 2 ^ t
  := by
  have hle : (2 : ℝ) ^ m.log2 ≤ m := by exact_mod_cast Nat.log2_self_le hm
  calc (2 : ℝ) ^ f.mantissaBitsWithoutImplicit = 2 ^ (m.log2 + e - t) := by
        rw [← zpow_natCast]
        congr 1
        omega
    _ = 2 ^ m.log2 * 2 ^ e / 2 ^ t := by
        rw [zpow_sub₀ two_ne_zero, zpow_add₀ two_ne_zero, zpow_natCast]
    _ ≤ y * 2 ^ e / 2 ^ t := by
        gcongr
        exact hle.trans hy

/-- Bringing a mantissa to its target exponent leaves as many digits as fit, and fewer
only with the smallest exponent. -/
theorem shift_spec {m : Nat} {e t : ℤ} {a : Accuracy}
    (hd : Describes (.ofMantissaAndAccuracy m a) y)
    (ht : t = f.targetExponent (totalExponent m e)) (he : e ≤ t) :
  ∃ em, shiftToTargetExponent f m e a = (em, t) ∧ Describes em (y * 2 ^ e / 2 ^ t) ∧
    em.mantissa < 2 ^ f.mantissaBits ∧
    (2 ^ f.mantissaBitsWithoutImplicit ≤ em.mantissa ∨ t = f.minExponent)
  := by
  have hf := f.hm
  have htarget : t = max (m.log2 + 1 + e - f.mantissaBits) f.minExponent := ht
  have hn : e + (t - e).toNat = t := by omega
  have hpow : (2 : ℝ) ^ (t - e).toNat = 2 ^ t / 2 ^ e := by
    rw [← zpow_natCast, ← zpow_sub₀ two_ne_zero]
    congr 1
    omega
  have hy := hd.mantissa_le
  rw [mantissa_ofMantissaAndAccuracy] at hy
  have hshift := hd.shiftRight (t - e).toNat
  rw [hpow, div_div_eq_mul_div] at hshift
  have hem := hshift.mantissa_le
  refine ⟨_, ?_, hshift, ?_, ?_⟩
  · rw [shiftToTargetExponent, ← ht, shiftToExponent, hn]
  · have := hem.1.trans_lt (shifted_lt (f := f) (t := t) hy.2 (by omega))
    exact_mod_cast this
  · by_cases hmin : t = f.minExponent
    · right
      exact hmin
    · left
      rw [mantissaBits_eq] at htarget
      have hm : m ≠ 0 := by
        rintro rfl
        rw [Nat.log2_zero] at htarget
        omega
      have := (le_shifted (f := f) (t := t) hm hy.1 (by omega)).trans_lt hem.2
      exact Nat.lt_succ_iff.mp (by exact_mod_cast this)

/-- After rounding up to one more digit the mantissa is brought to its exponent again;
otherwise there is nothing to do. -/
theorem shift_rounded {r : Nat} {e : ℤ} (hr : r ≤ 2 ^ f.mantissaBits)
    (he : f.minExponent ≤ e) :
  shiftToTargetExponent f r e .exact = (⟨r, false, false⟩, e) ∧ r < 2 ^ f.mantissaBits ∨
    shiftToTargetExponent f r e .exact
        = (⟨2 ^ f.mantissaBitsWithoutImplicit, false, false⟩, e + 1) ∧
      r = 2 ^ f.mantissaBits
  := by
  obtain hlt | rfl := hr.lt_or_eq
  · left
    have hlog : r.log2 < f.mantissaBits := by
      by_cases hz : r = 0
      · rw [hz, Nat.log2_zero, mantissaBits_eq]
        omega
      · exact (Nat.log2_lt hz).mpr hlt
    have hzero : (f.targetExponent (totalExponent r e) - e).toNat = 0 := by
      simp only [Format.targetExponent, totalExponent]
      omega
    refine ⟨?_, hlt⟩
    rw [shiftToTargetExponent, shiftToExponent, hzero]
    simp [HShiftRight.hShiftRight, Nat.repeat, ExtendedMantissa.ofMantissaAndAccuracy]
  · right
    have hone : (f.targetExponent (totalExponent (2 ^ f.mantissaBits) e) - e).toNat = 1 := by
      simp only [Format.targetExponent, totalExponent, Nat.log2_two_pow]
      omega
    refine ⟨?_, rfl⟩
    rw [shiftToTargetExponent, shiftToExponent, hone]
    simp [HShiftRight.hShiftRight, Nat.repeat, ExtendedMantissa.ofMantissaAndAccuracy,
      ExtendedMantissa.shiftRightOne, mantissaBits_eq, pow_succ]

/-- The result of rounding a real number: a number with a fitting mantissa, and no number
of the format is passed. -/
structure Rounds (f : Format) (x : ℝ) (u : UnpackedFloat) : Prop where
  isFinite : u.isFinite
  canonical : Canonical f u
  le_of_le : ∀ ⦃v⦄, Representable f v → x ≤ v → value u ≤ v
  ge_of_ge : ∀ ⦃v⦄, Representable f v → v ≤ x → v ≤ value u

/-- A number of the format is rounded to itself. -/
theorem Rounds.value_eq {x : ℝ} {u : UnpackedFloat} (h : Rounds f x u)
    (hx : Representable f x) :
  value u = x
  := le_antisymm (h.le_of_le hx le_rfl) (h.ge_of_ge hx le_rfl)

/-- A number of the format that is below the rounded one is not above the exact one. -/
theorem Rounds.le_of_lt {x v : ℝ} {u : UnpackedFloat} (h : Rounds f x u)
    (hv : Representable f v) (hlt : v < value u) :
  v ≤ x
  := by
  by_contra hx
  exact absurd (h.le_of_le hv (not_le.mp hx).le) (not_le.mpr hlt)

theorem Rounds.ge_of_gt {x v : ℝ} {u : UnpackedFloat} (h : Rounds f x u)
    (hv : Representable f v) (hlt : value u < v) :
  x ≤ v
  := by
  by_contra hx
  exact absurd (h.ge_of_ge hv (not_le.mp hx).le) (not_le.mpr hlt)

theorem Rounds.abs_value_le {x b : ℝ} {u : UnpackedFloat} (h : Rounds f x u)
    (hb : Representable f b) (hx : |x| ≤ b) :
  |value u| ≤ b
  := by
  obtain ⟨hlo, hhi⟩ := abs_le.mp hx
  exact abs_le.mpr ⟨h.ge_of_ge hb.neg hlo, h.le_of_le hb hhi⟩

/-- What lies between two numbers of a format is rounded to a number between them. -/
theorem Rounds.mem_uIcc {x : ℝ} {u : UnpackedFloat} (h : Rounds f x u)
    (hv : Representable f v) (hw : Representable f w) (hx : x ∈ Set.uIcc w v) :
  value u ∈ Set.uIcc w v
  := by
  obtain hle | hle := le_total w v
  · rw [Set.uIcc_of_le hle] at *
    exact ⟨h.ge_of_ge hw hx.1, h.le_of_le hv hx.2⟩
  · rw [Set.uIcc_of_ge hle] at *
    exact ⟨h.ge_of_ge hv hx.1, h.le_of_le hw hx.2⟩

/-- The value of what rounding gives: the rounded mantissa at its target exponent. -/
theorem roundWithAccuracy_spec {m : Nat} {e t : ℤ} {a : Accuracy}
    (hshift : shiftToTargetExponent f m e a = (em, t)) (hmin : f.minExponent ≤ t)
    (hlt : em.mantissa < 2 ^ f.mantissaBits)
    (hfull : 2 ^ f.mantissaBitsWithoutImplicit ≤ em.mantissa ∨ t = f.minExponent) :
  (roundWithAccuracy f .positive m e a).isFinite ∧
    Canonical f (roundWithAccuracy f .positive m e a) ∧
    value (roundWithAccuracy f .positive m e a) = em.roundedMantissa * 2 ^ t
  := by
  obtain ⟨hle, hsucc⟩ := mantissa_le_rounded em
  obtain ⟨hagain, hr⟩ | ⟨hagain, hr⟩ := shift_rounded (r := em.roundedMantissa) (by omega) hmin
  · simp only [roundWithAccuracy, hshift, hagain]
    split
    · rename_i hz
      simp only [hz, value_zero, Nat.cast_zero, zero_mul]
      exact ⟨rfl, trivial, trivial⟩
    · rw [value_positive]
      exact ⟨rfl, ⟨hr, hmin, hfull.imp_left hle.trans'⟩, rfl⟩
  · have hpos : 2 ^ f.mantissaBitsWithoutImplicit ≠ 0 := by positivity
    have hr : (em.roundedMantissa : ℝ) = 2 ^ f.mantissaBits := by exact_mod_cast hr
    simp only [roundWithAccuracy, hshift, hagain, dif_neg hpos]
    refine ⟨rfl, ⟨?_, ?_, .inl le_rfl⟩, ?_⟩
    · exact Nat.pow_lt_pow_right Nat.one_lt_two (by rw [mantissaBits_eq]; omega)
    · omega
    · rw [value_positive, hr, mantissaBits_eq, zpow_add_one₀ two_ne_zero]
      push_cast
      ring

/-- Rounding a number that is not negative. -/
theorem rounds_positive {m : Nat} {e : ℤ} {a : Accuracy}
    (hd : Describes (.ofMantissaAndAccuracy m a) y)
    (he : e ≤ f.targetExponent (totalExponent m e)) :
  Rounds f (y * 2 ^ e) (roundWithAccuracy f .positive m e a)
  := by
  obtain ⟨em, hshift, hem, hlt, hfull⟩ := shift_spec hd rfl he
  have hmin : f.minExponent ≤ f.targetExponent (totalExponent m e) := le_max_right _ _
  obtain ⟨hfinite, hcanonical, hvalue⟩ := roundWithAccuracy_spec hshift hmin hlt hfull
  generalize f.targetExponent (totalExponent m e) = t at *
  have hpow : (0 : ℝ) < 2 ^ t := by positivity
  -- A number that is small compared with the unit of the mantissa is not passed, because
  -- the mantissa is full then.
  have hbelow {v : ℝ} (ht : f.minExponent < t)
      (habs : |v| < 2 ^ f.mantissaBitsWithoutImplicit * 2 ^ t) : v < em.mantissa * 2 ^ t := by
    have hfull : (2 : ℝ) ^ f.mantissaBitsWithoutImplicit ≤ em.mantissa := by
      exact_mod_cast hfull.resolve_right (by omega)
    calc v ≤ |v| := le_abs_self v
      _ < 2 ^ f.mantissaBitsWithoutImplicit * 2 ^ t := habs
      _ ≤ em.mantissa * 2 ^ t := by gcongr
  refine ⟨hfinite, hcanonical, ?_, ?_⟩
  · intro v hv hle
    rw [hvalue]
    obtain ⟨k, rfl⟩ | ⟨ht, habs⟩ := hv.cases t
    · have hk : y * 2 ^ e / 2 ^ t ≤ k := by rwa [div_le_iff₀ hpow]
      have : (em.roundedMantissa : ℝ) ≤ k := by exact_mod_cast hem.rounded_le hk
      gcongr
    · have hx : em.mantissa * 2 ^ t ≤ y * 2 ^ e := by
        rw [← le_div_iff₀ hpow]
        exact hem.mantissa_le.1
      have := hbelow ht habs
      linarith
  · intro v hv hle
    rw [hvalue]
    obtain ⟨k, rfl⟩ | ⟨ht, habs⟩ := hv.cases t
    · have hk : k ≤ y * 2 ^ e / 2 ^ t := by rwa [le_div_iff₀ hpow]
      have : (k : ℝ) ≤ em.roundedMantissa := by exact_mod_cast hem.le_rounded hk
      gcongr
    · have hr : (em.mantissa : ℝ) ≤ em.roundedMantissa := by
        exact_mod_cast (mantissa_le_rounded em).1
      calc v ≤ em.mantissa * 2 ^ t := (hbelow ht habs).le
        _ ≤ em.roundedMantissa * 2 ^ t := by gcongr

/-! ### Signs -/

variable {u v : UnpackedFloat} {x : ℝ}

theorem neg_apply (s : Sign) (n : ℤ) :
  (-s).apply n = -s.apply n
  := by
  cases s with
  | negative => exact (neg_neg n).symm
  | positive => rfl

theorem value_neg (u : UnpackedFloat) :
  value u.neg = -value u
  := by
  cases u with
  | finite s m e hm => rw [UnpackedFloat.neg, value, value, neg_apply, Int.cast_neg, neg_mul]
  | _ => exact neg_zero.symm

theorem isFinite_neg (u : UnpackedFloat) :
  u.neg.isFinite = u.isFinite
  := by cases u <;> rfl

theorem canonical_neg (h : Canonical f u) :
  Canonical f u.neg
  := by cases u <;> exact h

theorem Rounds.neg (h : Rounds f x u) :
  Rounds f (-x) u.neg
  := by
  constructor
  · rw [isFinite_neg]
    exact h.isFinite
  · exact canonical_neg h.canonical
  · intro v hv hle
    rw [value_neg]
    have := h.ge_of_ge hv.neg (by linarith)
    linarith
  · intro v hv hle
    rw [value_neg]
    have := h.le_of_le hv.neg (by linarith)
    linarith

theorem roundWithAccuracy_negative (f : Format) (m : Nat) (e : ℤ) (a : Accuracy) :
  roundWithAccuracy f .negative m e a = (roundWithAccuracy f .positive m e a).neg
  := by
  simp only [roundWithAccuracy]
  split
  · rfl
  · rfl

/-- Rounding a number with a sign. -/
theorem rounds_roundWithAccuracy (s : Sign) {m : Nat} {e : ℤ} {a : Accuracy}
    (hd : Describes (.ofMantissaAndAccuracy m a) y)
    (he : e ≤ f.targetExponent (totalExponent m e)) :
  Rounds f (s.apply 1 * (y * 2 ^ e)) (roundWithAccuracy f s m e a)
  := by
  have hp := rounds_positive hd he
  cases s with
  | positive => simpa [Sign.apply] using hp
  | negative =>
      rw [roundWithAccuracy_negative]
      simpa [Sign.apply] using hp.neg

/-! ### Packing what was rounded -/

/-- What is not larger than the largest number of a format is not rounded to anything
larger, and so it is packed without loss. -/
theorem Rounds.packed (hf : 1 < f.exponentBits) (h : Rounds f x u) (hx : |x| ≤ maxValue f) :
  Rounds f x (UnpackedFloat.unpack f (UnpackedFloat.pack f u))
  := by
  have hle := h.abs_value_le (representable_maxValue hf) hx
  rw [unpack_pack hf h.canonical (inRange_of_lt hf h.canonical (hle.trans_lt (maxValue_lt f)))]
  exact h

end ModelCar
