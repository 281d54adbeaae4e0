import ModelCar.Proofs.Number.Rounding

/-!
# Arithmetic of binary numbers

Every operation gives the exact result, rounded.  An operation computes its result with
so many digits that rounding need only drop some of them, or down to the smallest
exponent: `le_targetExponent`.
-/

namespace ModelCar

open Float.Model Float.Model.UnpackedFloat

variable {f : Format} {u v : UnpackedFloat}

/-! ### Positions of digits -/

/-- The position of the first digit of a number. -/
theorem totalExponent_bounds {m : Nat} (hm : 0 < m) (e : ℤ) :
  (2 : ℝ) ^ (totalExponent m e - 1) ≤ m * 2 ^ e ∧ m * 2 ^ e < (2 : ℝ) ^ totalExponent m e
  := by
  have hlo : (2 : ℝ) ^ m.log2 ≤ m := by exact_mod_cast Nat.log2_self_le hm.ne'
  have hhi : (m : ℝ) < 2 ^ (m.log2 + 1) := by exact_mod_cast Nat.lt_log2_self
  have hpow : (0 : ℝ) < 2 ^ e := by positivity
  rw [totalExponent]
  constructor
  · calc (2 : ℝ) ^ ((m.log2 : ℤ) + 1 + e - 1) = 2 ^ m.log2 * 2 ^ e := by
          rw [← zpow_natCast, ← zpow_add₀ two_ne_zero]
          congr 1
          ring
      _ ≤ m * 2 ^ e := by gcongr
  · calc (m * 2 ^ e : ℝ) < 2 ^ (m.log2 + 1) * 2 ^ e := by gcongr
      _ = 2 ^ ((m.log2 : ℤ) + 1 + e) := by
          rw [← zpow_natCast, ← zpow_add₀ two_ne_zero]
          push_cast
          rfl

theorem le_totalExponent_iff {m : Nat} (hm : 0 < m) (e t : ℤ) :
  t ≤ totalExponent m e ↔ (2 : ℝ) ^ (t - 1) ≤ m * 2 ^ e
  := by
  obtain ⟨hlo, hhi⟩ := totalExponent_bounds hm e
  constructor
  · intro h
    exact (zpow_le_zpow_right₀ one_le_two (by omega)).trans hlo
  · intro h
    have := (zpow_lt_zpow_iff_right₀ (one_lt_two : (1 : ℝ) < 2)).mp (h.trans_lt hhi)
    omega

theorem targetExponent_mono {s t : ℤ} (h : s ≤ t) :
  f.targetExponent s ≤ f.targetExponent t
  := by
  simp only [Format.targetExponent]
  omega

theorem describes_exact (m : Nat) :
  Describes (.ofMantissaAndAccuracy m .exact) m
  := .exact rfl

/-- An exponent small enough for a number is small enough for its mantissa as well. -/
theorem le_targetExponent {m : Nat} {e t : ℤ} {a : Accuracy} {y : ℝ}
    (hd : Describes (.ofMantissaAndAccuracy m a) y) (ht : 2 ^ (t - 1) ≤ y * 2 ^ e)
    (he : e ≤ f.targetExponent t) :
  e ≤ f.targetExponent (totalExponent m e)
  := by
  have hy := hd.mantissa_le
  rw [mantissa_ofMantissaAndAccuracy] at hy
  have hpow : (0 : ℝ) < 2 ^ e := by positivity
  obtain rfl | hm := m.eq_zero_or_pos
  · -- No digit is left, so the exponent is the smallest one or below it.
    have hlt : (2 : ℝ) ^ (t - 1) < 2 ^ e := by
      calc (2 : ℝ) ^ (t - 1) ≤ y * 2 ^ e := ht
        _ < 1 * 2 ^ e := by
            gcongr
            simpa using hy.2
        _ = 2 ^ e := one_mul _
    have := (zpow_lt_zpow_iff_right₀ (one_lt_two : (1 : ℝ) < 2)).mp hlt
    have := f.hm
    simp only [Format.targetExponent, mantissaBits_eq] at he ⊢
    omega
  · apply he.trans (targetExponent_mono _)
    rw [le_totalExponent_iff hm]
    by_cases hte : t - 1 ≤ e
    · calc (2 : ℝ) ^ (t - 1) ≤ 1 * 2 ^ e := by
            rw [one_mul]
            exact zpow_le_zpow_right₀ one_le_two hte
        _ ≤ m * 2 ^ e := by
            gcongr
            exact_mod_cast hm
    · have hk : (2 : ℝ) ^ (t - 1) = (2 ^ (t - 1 - e).toNat : Nat) * 2 ^ e := by
        push_cast
        rw [← zpow_natCast, ← zpow_add₀ two_ne_zero]
        congr 1
        omega
      have hle : ((2 ^ (t - 1 - e).toNat : Nat) : ℝ) < m + 1 := by
        apply lt_of_le_of_lt _ hy.2
        rwa [hk, mul_le_mul_iff_left₀ hpow] at ht
      have hle : 2 ^ (t - 1 - e).toNat ≤ m := Nat.lt_succ_iff.mp (by exact_mod_cast hle)
      rw [hk]
      gcongr

/-! ### Sums and differences -/

/-- A representable number is rounded to itself. -/
theorem rounds_self (h : Canonical f u) (hu : u.isFinite) :
  Rounds f (value u) u
  := ⟨hu, h, fun _ _ hle => hle, fun _ _ hle => hle⟩

theorem rounds_zero (f : Format) (s : Sign) :
  Rounds f 0 (.zero s)
  := rounds_self (u := .zero s) trivial rfl

theorem apply_eq (s : Sign) (m : Nat) :
  (s.apply m : ℝ) = s.apply 1 * m
  := by cases s <;> simp [Sign.apply]

/-- Decreasing the exponent keeps the value. -/
theorem decreaseExponent_value (m : Nat) (e t : ℤ) :
  ((decreaseExponent m e t).1 : ℝ) * 2 ^ (decreaseExponent m e t).2 = m * 2 ^ e
  := by
  simp only [decreaseExponent, Nat.shiftLeft_eq]
  push_cast
  rw [mul_assoc, ← zpow_natCast, ← zpow_add₀ two_ne_zero]
  congr 2
  omega

/-- A mantissa moved up to a smaller exponent. -/
theorem shiftLeft_value (m : Nat) {e t : ℤ} (h : t ≤ e) :
  ((m <<< (e - t).toNat : Nat) : ℝ) * 2 ^ t = m * 2 ^ e
  := by
  have ht : (decreaseExponent m e t).2 = t := by
    simp only [decreaseExponent]
    omega
  rw [← decreaseExponent_value m e t, ht]
  rfl

/-- Decreasing the exponent of a number with a sign. -/
theorem apply_decreaseExponent (s : Sign) (m : Nat) {e t : ℤ} (h : t ≤ e) :
  (s.apply (decreaseExponent m e t).1 : ℝ) * 2 ^ t = s.apply m * 2 ^ e
  := by
  rw [apply_eq, mul_assoc, decreaseExponent, shiftLeft_value m h, ← mul_assoc, ← apply_eq]

theorem rounds_round (s : Sign) {m : Nat} (hm : 0 < m) (e : ℤ) :
  Rounds f (s.apply m * 2 ^ e) (UnpackedFloat.round f s m e)
  := by
  have hvalue := decreaseExponent_value m e (f.targetExponent (totalExponent m e))
  have hle : (decreaseExponent m e (f.targetExponent (totalExponent m e))).2
      ≤ f.targetExponent (totalExponent m e) := by
    simp only [decreaseExponent]
    omega
  have hbound := (totalExponent_bounds hm e).1
  rw [← hvalue] at hbound
  rw [apply_eq, mul_assoc, ← hvalue]
  apply rounds_roundWithAccuracy s (describes_exact _)
  exact le_targetExponent (describes_exact _) hbound hle

theorem rounds_normalize (k e : ℤ) (s : Sign) :
  Rounds f (k * 2 ^ e) (UnpackedFloat.normalize f k e s)
  := by
  rw [UnpackedFloat.normalize]
  split
  · rename_i h
    rw [Int.compare_eq_lt] at h
    have hk : (k : ℝ) = (Sign.negative.apply (-k).toNat : ℤ) := by
      rw [Sign.apply]
      congr 1
      omega
    rw [hk]
    exact rounds_round _ (by omega) e
  · rename_i h
    rw [compare_eq_iff_eq] at h
    rw [h, Int.cast_zero, zero_mul]
    exact rounds_zero f s
  · rename_i h
    rw [Int.compare_eq_gt] at h
    have hk : (k : ℝ) = (Sign.positive.apply k.toNat : ℤ) := by
      rw [Sign.apply]
      congr 1
      omega
    rw [hk]
    exact rounds_round _ (by omega) e

/-- A sum is the exact sum, rounded. -/
theorem rounds_add (hu : Canonical f u) (hv : Canonical f v) (huf : u.isFinite)
    (hvf : v.isFinite) :
  Rounds f (value u + value v) (UnpackedFloat.add f u v)
  := by
  obtain ⟨s, rfl⟩ | ⟨s, m, e, hm, rfl⟩ := finite_cases huf
  · obtain ⟨t, rfl⟩ | ⟨t, n, d, hn, rfl⟩ := finite_cases hvf
    · simp only [value_zero, add_zero, UnpackedFloat.add]
      split
      · exact rounds_zero f s
      · exact rounds_zero f .positive
    · rw [value_zero, zero_add]
      exact rounds_self hv rfl
  · obtain ⟨t, rfl⟩ | ⟨t, n, d, hn, rfl⟩ := finite_cases hvf
    · rw [value_zero, add_zero]
      exact rounds_self hu rfl
    · rw [value, value, ← apply_decreaseExponent s m (min_le_left e d),
        ← apply_decreaseExponent t n (min_le_right e d), ← add_mul, ← Int.cast_add]
      exact rounds_normalize _ _ .positive

theorem sub_eq_add (f : Format) (u v : UnpackedFloat) :
  UnpackedFloat.sub f u v = UnpackedFloat.add f u v.neg
  := by
  cases u with
  | finite s m e hm =>
      cases v with
      | finite t n d hn =>
          simp only [UnpackedFloat.sub, UnpackedFloat.add, UnpackedFloat.neg, neg_apply,
            Int.sub_eq_add_neg]
      | _ => rfl
  | _ => cases v <;> rfl

/-- A difference is the exact difference, rounded. -/
theorem rounds_sub (hu : Canonical f u) (hv : Canonical f v) (huf : u.isFinite)
    (hvf : v.isFinite) :
  Rounds f (value u - value v) (UnpackedFloat.sub f u v)
  := by
  rw [sub_eq_add, sub_eq_add_neg, ← value_neg]
  exact rounds_add hu (canonical_neg hv) huf ((isFinite_neg v).trans hvf)

/-! ### Products -/

theorem apply_mul (s t : Sign) :
  (s * t).apply 1 = s.apply 1 * t.apply 1
  := by cases s <;> cases t <;> rfl

theorem value_finite (s : Sign) (m : Nat) (e : ℤ) (hm : 0 < m) :
  value (.finite s m e hm) = s.apply 1 * (m * 2 ^ e)
  := by
  rw [value, apply_eq, mul_assoc]

/-- A product has more digits than fit, or the smallest exponent. -/
theorem le_targetExponent_mul {s t : Sign} {m n : Nat} {e d : ℤ} {hm : 0 < m} {hn : 0 < n}
    (hu : Canonical f (.finite s m e hm)) (hv : Canonical f (.finite t n d hn)) :
  e + d ≤ f.targetExponent (totalExponent (m * n) (e + d))
  := by
  obtain ⟨-, -, hmfull⟩ := hu
  obtain ⟨-, -, hnfull⟩ := hv
  by_cases hfull : 2 ^ f.mantissaBitsWithoutImplicit ≤ m * n
  · have hlog := (Nat.le_log2 (Nat.mul_pos hm hn).ne').mpr hfull
    simp only [Format.targetExponent, totalExponent, mantissaBits_eq]
    omega
  · have hmlow : ¬ 2 ^ f.mantissaBitsWithoutImplicit ≤ m :=
      fun h => hfull (h.trans (Nat.le_mul_of_pos_right m hn))
    have hnlow : ¬ 2 ^ f.mantissaBitsWithoutImplicit ≤ n :=
      fun h => hfull (h.trans (Nat.le_mul_of_pos_left n hm))
    have he := hmfull.resolve_left hmlow
    have hd := hnfull.resolve_left hnlow
    have := minExponent_le_zero f
    simp only [Format.targetExponent]
    omega

/-- A product is the exact product, rounded. -/
theorem rounds_mul (hu : Canonical f u) (hv : Canonical f v) (huf : u.isFinite)
    (hvf : v.isFinite) :
  Rounds f (value u * value v) (UnpackedFloat.mul f u v)
  := by
  obtain ⟨s, rfl⟩ | ⟨s, m, e, hm, rfl⟩ := finite_cases huf
  · rw [value_zero, zero_mul]
    obtain ⟨t, rfl⟩ | ⟨t, n, d, hn, rfl⟩ := finite_cases hvf
    · exact rounds_zero f (s * t)
    · exact rounds_zero f (s * t)
  · obtain ⟨t, rfl⟩ | ⟨t, n, d, hn, rfl⟩ := finite_cases hvf
    · rw [value_zero, mul_zero]
      exact rounds_zero f (s * t)
    · have hx : value (.finite s m e hm) * value (.finite t n d hn)
          = (s * t).apply 1 * ((m * n : Nat) * 2 ^ (e + d)) := by
        rw [value_finite, value_finite, apply_mul, zpow_add₀ two_ne_zero]
        push_cast
        ring
      rw [hx]
      apply rounds_roundWithAccuracy _ (describes_exact _)
      exact le_targetExponent_mul hu hv

/-! ### Quotients -/

/-- The accuracy of a quotient without its remainder. -/
theorem describes_fraction (m : Nat) {n : Nat} (hn : 0 < n) :
  Describes (.ofMantissaAndAccuracy (m / n) (accuracyOfFraction (m % n) n)) (m / n)
  := by
  have hpos : (0 : ℝ) < n := by exact_mod_cast hn
  have hlt : ((m % n : Nat) : ℝ) < n := by exact_mod_cast Nat.mod_lt m hn
  have hdiv : (m : ℝ) / n = (m / n : Nat) + (m % n : Nat) / n := by
    rw [div_eq_iff hpos.ne', add_mul, div_mul_cancel₀ _ hpos.ne']
    exact_mod_cast (Nat.div_add_mod' m n).symm
  rw [hdiv]
  generalize m / n = q
  generalize m % n = r at *
  rw [accuracyOfFraction]
  split
  · rename_i hr
    rw [hr, Nat.cast_zero, zero_div, add_zero]
    exact describes_exact q
  · rename_i hr
    have hr : (0 : ℝ) < r := by exact_mod_cast Nat.pos_of_ne_zero hr
    have hfrac : 0 < (r : ℝ) / n := div_pos hr hpos
    have hone : (r : ℝ) / n < 1 := by rwa [div_lt_one hpos]
    cases hc : compare (2 * r) n with
    | lt =>
        rw [Nat.compare_eq_lt] at hc
        have hc : (2 * r : ℝ) < n := by exact_mod_cast hc
        have : (r : ℝ) / n < 1 / 2 := by
          rw [div_lt_div_iff₀ hpos two_pos]
          linarith
        exact .below (by linarith) (by linarith)
    | eq =>
        rw [Nat.compare_eq_eq] at hc
        have hc : (2 * r : ℝ) = n := by exact_mod_cast hc
        have : (r : ℝ) / n = 1 / 2 := by
          rw [div_eq_div_iff hpos.ne' two_ne_zero]
          linarith
        exact .middle (by rw [this])
    | gt =>
        rw [Nat.compare_eq_gt] at hc
        have hc : (n : ℝ) < 2 * r := by exact_mod_cast hc
        have : 1 / 2 < (r : ℝ) / n := by
          rw [div_lt_div_iff₀ two_pos hpos]
          linarith
        exact .above (by linarith) (by linarith)

theorem apply_div (s t : Sign) :
  (s / t).apply 1 = s.apply 1 / t.apply 1
  := by cases s <;> cases t <;> rfl

theorem value_div_value (s t : Sign) {m n : Nat} (e d : ℤ) (hm : 0 < m) (hn : 0 < n) :
  value (.finite s m e hm) / value (.finite t n d hn)
    = (s / t).apply 1 * (m * 2 ^ e / (n * 2 ^ d))
  := by
  rw [value_finite, value_finite, mul_div_mul_comm]
  congr 1
  rw [apply_div]
  cases s <;> cases t <;> norm_num [Sign.apply]

/-- The exponent of a quotient with so many digits is small enough. -/
theorem le_targetExponent_div {m n : Nat} {e d k : ℤ} {a : Accuracy} {y : ℝ} (hm : 0 < m)
    (hn : 0 < n) {q : Nat} (hd : Describes (.ofMantissaAndAccuracy q a) y)
    (hquot : y * 2 ^ k = m * 2 ^ e / (n * 2 ^ d))
    (hk : k ≤ f.targetExponent (totalExponent m e - totalExponent n d)) :
  k ≤ f.targetExponent (totalExponent q k)
  := by
  apply le_targetExponent hd _ hk
  rw [hquot, le_div_iff₀ (by positivity)]
  calc (2 : ℝ) ^ (totalExponent m e - totalExponent n d - 1) * (n * 2 ^ d)
      ≤ 2 ^ (totalExponent m e - totalExponent n d - 1) * 2 ^ totalExponent n d := by
        gcongr
        exact (totalExponent_bounds hn d).2.le
    _ = 2 ^ (totalExponent m e - 1) := by
        rw [← zpow_add₀ two_ne_zero]
        congr 1
        ring
    _ ≤ m * 2 ^ e := (totalExponent_bounds hm e).1

/-- A quotient is the exact quotient, rounded. -/
theorem rounds_div (huf : u.isFinite) (hvf : v.isFinite) (hv : value v ≠ 0) :
  Rounds f (value u / value v) (UnpackedFloat.div f u v)
  := by
  obtain ⟨t, rfl⟩ | ⟨t, n, d, hn, rfl⟩ := finite_cases hvf
  · cases hv rfl
  obtain ⟨s, rfl⟩ | ⟨s, m, e, hm, rfl⟩ := finite_cases huf
  · rw [value_zero, zero_div]
    exact rounds_zero f (s / t)
  · have hle := min_le_left (e - d)
      (f.targetExponent (totalExponent m e - totalExponent n d))
    have htarget := min_le_right (e - d)
      (f.targetExponent (totalExponent m e - totalExponent n d))
    simp only [UnpackedFloat.div, divCore]
    generalize min (e - d) (f.targetExponent (totalExponent m e - totalExponent n d)) = k
      at *
    have hshift := shiftLeft_value m hle
    generalize m <<< (e - d - k).toNat = a at *
    have hn' : (n : ℝ) ≠ 0 := by exact_mod_cast hn.ne'
    have hquot : (a / n * 2 ^ k : ℝ) = m * 2 ^ e / (n * 2 ^ d) := by
      rw [div_mul_eq_mul_div, hshift, zpow_sub₀ two_ne_zero]
      field_simp
    have hd := describes_fraction a hn
    rw [value_div_value, ← hquot]
    exact rounds_roundWithAccuracy _ hd (le_targetExponent_div hm hn hd hquot htarget)

/-! ### Square roots -/

/-- The accuracy of a square root without its remainder. -/
theorem describes_sqrt (m : Nat) :
  Describes (.ofMantissaAndAccuracy m.sqrt
    (if m - m.sqrt * m.sqrt = 0 then .exact
      else .inexact (if m - m.sqrt * m.sqrt ≤ m.sqrt then .lt else .gt))) √m
  := by
  have hle := m.sqrt_le
  have hlt := m.lt_succ_sqrt
  generalize m.sqrt = r at *
  have hr : (0 : ℝ) ≤ r := Nat.cast_nonneg r
  split
  · have hm : (m : ℝ) = r ^ 2 := by
      have : m = r ^ 2 := by
        rw [sq]
        omega
      exact_mod_cast this
    rw [hm, Real.sqrt_sq hr]
    exact describes_exact r
  · split
    · have hlo : (r : ℝ) ^ 2 < m := by
        have : r ^ 2 < m := by
          rw [sq]
          omega
        exact_mod_cast this
      have hhi : (m : ℝ) ≤ r ^ 2 + r := by
        have : m ≤ r ^ 2 + r := by
          rw [sq]
          omega
        exact_mod_cast this
      apply Describes.below
      · exact Real.lt_sqrt_of_sq_lt hlo
      · rw [Real.sqrt_lt' (by positivity)]
        nlinarith
    · have hlo : (r : ℝ) ^ 2 + r + 1 ≤ m := by
        have : r ^ 2 + r + 1 ≤ m := by
          rw [sq]
          omega
        exact_mod_cast this
      have hhi : (m : ℝ) < (r + 1) ^ 2 := by
        have : m < (r + 1) ^ 2 := by
          rw [sq]
          exact hlt
        exact_mod_cast this
      apply Describes.above
      · apply Real.lt_sqrt_of_sq_lt
        nlinarith
      · rw [Real.sqrt_lt' (by positivity)]
        exact hhi

/-- The exponent of a square root with so many digits is small enough. -/
theorem le_targetExponent_sqrt {m q : Nat} {e k : ℤ} {a : Accuracy} {y : ℝ} (hm : 0 < m)
    (hd : Describes (.ofMantissaAndAccuracy q a) y) (hroot : y * 2 ^ k = √(m * 2 ^ e))
    (hk : k ≤ f.targetExponent ((totalExponent m e + 1) / 2)) :
  k ≤ f.targetExponent (totalExponent q k)
  := by
  have htwice : 2 * ((totalExponent m e + 1) / 2) ≤ totalExponent m e + 1 :=
    Int.mul_ediv_self_le (by decide)
  apply le_targetExponent hd _ hk
  rw [hroot]
  apply Real.le_sqrt_of_sq_le
  calc ((2 : ℝ) ^ ((totalExponent m e + 1) / 2 - 1)) ^ 2
      = 2 ^ (((totalExponent m e + 1) / 2 - 1) * 2) := (zpow_mul _ _ 2).symm
    _ ≤ 2 ^ (totalExponent m e - 1) := by
        apply zpow_le_zpow_right₀ one_le_two
        omega
    _ ≤ m * 2 ^ e := (totalExponent_bounds hm e).1

/-- A square root is the exact square root, rounded. -/
theorem rounds_sqrt (huf : u.isFinite) (hu : 0 ≤ value u) :
  Rounds f (√(value u)) (UnpackedFloat.sqrt f u)
  := by
  obtain ⟨s, rfl⟩ | ⟨s, m, e, hm, rfl⟩ := finite_cases huf
  · rw [value_zero, Real.sqrt_zero]
    exact rounds_zero f s
  · have hpos : (0 : ℝ) < m * 2 ^ e := by positivity
    cases s with
    | negative =>
        rw [value_negative] at hu
        linarith
    | positive =>
        have hle := min_le_left (e.ediv 2) (f.targetExponent ((totalExponent m e + 1).ediv 2))
        have htarget := min_le_right (e.ediv 2)
          (f.targetExponent ((totalExponent m e + 1).ediv 2))
        simp only [UnpackedFloat.sqrt, sqrtCore]
        generalize min (e.ediv 2) (f.targetExponent ((totalExponent m e + 1).ediv 2)) = k
          at *
        have hk : 2 * k ≤ e := by
          have : 2 * (e / 2) ≤ e := Int.mul_ediv_self_le (by decide)
          have : k ≤ e / 2 := hle
          omega
        have hshift := shiftLeft_value m hk
        generalize m <<< (e - 2 * k).toNat = a at *
        have hroot : √a * 2 ^ k = √(m * 2 ^ e : ℝ) := by
          rw [← hshift, Real.sqrt_mul (Nat.cast_nonneg a), mul_comm 2 k, zpow_mul,
            zpow_two, ← sq, Real.sqrt_sq (by positivity)]
        have hd := describes_sqrt a
        have hr := rounds_roundWithAccuracy (f := f) .positive hd
          (le_targetExponent_sqrt hm hd hroot htarget)
        rw [value_positive, ← hroot]
        simpa [Sign.apply] using hr

end ModelCar
