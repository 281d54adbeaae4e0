import ModelCar.Proofs.Number.Double
import ModelCar.Motion.Calibration

/-!
# Directions

The square of the length of a vector is not smaller than the square of any coordinate, and
neither is the length, but for a factor of two, even if both are rounded.  So a vector that
is long enough has a direction with finite coordinates.
-/

namespace ModelCar

open Float.Model

/-! ### Coordinates -/

theorem Vector3.forall_mem_toList {α : Type} {p : α → Prop} (v : Vector3 α) :
  (∀ x ∈ v.toList, p x) ↔ p v.x ∧ p v.y ∧ p v.z
  := by simp [toList]

theorem Vector3.all_iff {α : Type} (p : α → Bool) (v : Vector3 α) :
  v.all p ↔ ∀ x ∈ v.toList, p x
  := by
  rw [forall_mem_toList]
  simp only [all, Bool.and_eq_true, and_assoc]

theorem Vector3.isFinite_iff (v : Vector3 Float32) :
  v.isFinite ↔ ∀ x ∈ v.toList, x.isFinite
  := v.all_iff _

theorem Vector3.isFinite_map {α : Type} (f : α → Float32) {v : Vector3 α}
    (h : ∀ x ∈ v.toList, (f x).isFinite) :
  (v.map f).isFinite
  := by
  rw [isFinite_iff]
  intro y hy
  obtain ⟨x, hx, rfl⟩ := List.mem_map.mp (show y ∈ v.toList.map f from hy)
  exact h x hx

/-! ### Lengths -/

/-- A number between zero and a power of two. -/
structure UpTo (k : ℤ) (x : Float) : Prop where
  isFinite : x.isFinite
  nonneg : 0 ≤ double x
  le : double x ≤ 2 ^ k

variable {x y z : Float} {k : ℤ}

theorem UpTo.mono {l : ℤ} (h : UpTo k x) (hkl : k ≤ l) :
  UpTo l x
  := ⟨h.isFinite, h.nonneg, h.le.trans (zpow_le_zpow_right₀ one_le_two hkl)⟩

/-- A sum of such numbers is not smaller than any of them. -/
theorem UpTo.add (hx : UpTo k x) (hy : UpTo k y) (hmin : 0 ≤ k) (hmax : k < 1023) :
  UpTo (k + 1) (x + y) ∧ double x ≤ double (x + y) ∧ double y ≤ double (x + y)
  := by
  have hx0 := hx.nonneg
  have hy0 := hy.nonneg
  have hle : double x + double y ≤ 2 ^ (k + 1) := by
    rw [zpow_add_one₀ two_ne_zero]
    have := hx.le
    have := hy.le
    linarith
  have hr := roundsTo_add hx.isFinite hy.isFinite (by
    rw [abs_of_nonneg (by linarith)]
    exact hle.trans (zpow_le_maxValue (show k + 1 ≤ 1023 by omega)))
  have hrep : Representable .binary64 (2 ^ (k + 1)) :=
    representable_zpow (show -1074 ≤ k + 1 by omega)
  refine ⟨⟨hr.isFinite, ?_, hr.le_of_le hrep hle⟩, ?_, ?_⟩
  · exact hr.ge_of_ge (representable_zero _) (by linarith)
  · exact hr.ge_of_ge (representable_double x) (by linarith)
  · exact hr.ge_of_ge (representable_double y) (by linarith)

/-- The square of a moderate number. -/
theorem Moderate.roundsTo_mul_self (hx : Moderate x) :
  RoundsTo (double x * double x) (x * x) ∧ UpTo 256 (x * x)
  := by
  have hle : double x * double x ≤ 2 ^ (256 : ℤ) := by
    calc double x * double x = |double x| * |double x| := (abs_mul_abs_self _).symm
      _ ≤ 2 ^ (128 : ℤ) * 2 ^ (128 : ℤ) := by
          have := hx.abs_le_zpow
          gcongr
      _ = 2 ^ (256 : ℤ) := by norm_num
  have hr := roundsTo_mul hx.isFinite hx.isFinite (by
    rw [abs_mul_self]
    exact hle.trans (zpow_le_maxValue (by decide)))
  refine ⟨hr, hr.isFinite, ?_, ?_⟩
  · exact hr.ge_of_ge (representable_zero _) (mul_self_nonneg _)
  · exact hr.le_of_le (representable_zpow (by decide)) hle

/-- The square of the length of a vector is not smaller than the square of any
coordinate. -/
theorem upTo_dot {v : Vector3 Float} (hv : ∀ x ∈ v.toList, Moderate x) :
  UpTo 258 (v.dot v) ∧ ∀ x ∈ v.toList, double (x * x) ≤ double (v.dot v)
  := by
  rw [Vector3.forall_mem_toList] at *
  obtain ⟨hx, hy, hz⟩ := hv
  obtain ⟨hxy, hxle, hyle⟩ :=
    hx.roundsTo_mul_self.2.add hy.roundsTo_mul_self.2 (by decide) (by decide)
  obtain ⟨hall, hxyle, hzle⟩ :=
    hxy.add (hz.roundsTo_mul_self.2.mono (by decide)) (by decide) (by decide)
  exact ⟨hall, hxle.trans hxyle, hyle.trans hxyle, hzle⟩

/-! ### Directions -/

/-- The smallest square of a length that shows a direction. -/
theorem double_smallestLengthSq :
  (Vector3.smallestLengthSq : Float).isFinite ∧
    2 ^ (-20 : ℤ) ≤ double Vector3.smallestLengthSq
  := by
  have h : (Vector3.smallestLengthSq : Float).toModel.unpack
      = .finite .positive 4722366482869645 (-72) (by decide) := rfl
  use rfl
  rw [double, h, value_positive]
  norm_num

variable {s r : Float}

theorem UpTo.roundsTo_sqrt (h : UpTo 258 s) :
  RoundsTo (√(double s)) s.sqrt
  := by
  apply ModelCar.roundsTo_sqrt h.isFinite h.nonneg
  rw [abs_of_nonneg (Real.sqrt_nonneg _)]
  have hle : √(double s) ≤ 2 ^ (129 : ℤ) := by
    rw [Real.sqrt_le_left (by positivity), ← zpow_natCast, ← zpow_mul]
    exact h.le
  exact hle.trans (zpow_le_maxValue (by decide))

theorem zpow_le_sqrt (hr : RoundsTo (√(double s)) r) (hk : -1074 ≤ k)
    (h : (2 ^ k) ^ 2 ≤ double s) :
  2 ^ k ≤ double r
  := hr.ge_of_ge (representable_zpow hk) (Real.le_sqrt_of_sq_le h)

/-- A coordinate is not much larger than the length, rounded. -/
theorem abs_le_length (hx : Moderate x) (hr : RoundsTo (√(double s)) r)
    (hs : double (x * x) ≤ double s) (hmin : 2 ^ (-20 : ℤ) ≤ double s) :
  |double x| ≤ 2 * double r
  := by
  by_cases hsmall : |double x| < 2 ^ (-9 : ℤ)
  · have hten : 2 ^ (-10 : ℤ) ≤ double r :=
      zpow_le_sqrt hr (by decide) (le_of_eq_of_le (by norm_num) hmin)
    calc |double x| ≤ 2 ^ (-9 : ℤ) := hsmall.le
      _ = 2 * 2 ^ (-10 : ℤ) := by norm_num
      _ ≤ 2 * double r := by gcongr
  · obtain ⟨q, hq, hlo, hhi⟩ := exists_zpow_le (not_lt.mp hsmall)
    have hsq : (2 ^ q) ^ 2 ≤ double (x * x) := by
      apply hx.roundsTo_mul_self.1.ge_of_ge
      · rw [← zpow_natCast, ← zpow_mul]
        exact representable_zpow (show -1074 ≤ q * (2 : ℕ) by omega)
      · rw [← abs_mul_abs_self, ← sq]
        gcongr
    have hlen : 2 ^ q ≤ double r := zpow_le_sqrt hr (by omega) (hsq.trans hs)
    calc |double x| ≤ 2 ^ (q + 1) := hhi.le
      _ = 2 * 2 ^ q := by rw [zpow_add_one₀ two_ne_zero, mul_comm]
      _ ≤ 2 * double r := by gcongr

/-- A number divided by one that is not much smaller. -/
theorem moderate_div (hx : x.isFinite) (hr : r.isFinite) (hpos : 0 < double r)
    (hle : |double x| ≤ 2 * double r) :
  Moderate (x / r)
  := by
  have htwo : |double x / double r| ≤ 2 ^ (1 : ℤ) := by
    rw [abs_div, abs_of_pos hpos, div_le_iff₀ hpos, zpow_one]
    exact hle
  have hq := roundsTo_div hx hr hpos.ne' (htwo.trans (zpow_le_maxValue (by decide)))
  use hq.isFinite
  have hle := hq.abs_value_le (representable_zpow (by decide)) htwo
  exact hle.trans (zpow_le_maxValue (by decide))

/-- A vector that is long enough has a direction with finite coordinates. -/
theorem isFinite_over {v : Vector3 Float} (hv : ∀ x ∈ v.toList, Moderate x)
    (h : Vector3.smallestLengthSq ≤ v.dot v) :
  (v.over (Scalar.sqrt (v.dot v)) : Vector3 Float32).isFinite
  := by
  obtain ⟨hdot, hle⟩ := upTo_dot hv
  obtain ⟨hfinite, hsmallest⟩ := double_smallestLengthSq
  have hmin := hsmallest.trans ((double_le_iff hfinite hdot.isFinite).mp h)
  have hr := hdot.roundsTo_sqrt
  have hpos : 0 < double (v.dot v).sqrt :=
    lt_of_lt_of_le (by positivity) (zpow_le_sqrt (k := -10) hr (by decide)
      (le_of_eq_of_le (by norm_num) hmin))
  apply Vector3.isFinite_map
  intro x hx
  have hlen := abs_le_length (hv x hx) hr (hle x hx) hmin
  exact (moderate_div (hv x hx).isFinite hr.isFinite hpos hlen).rounds_narrow.isFinite

end ModelCar
