import ModelCar.Proofs.Number.Single
import ModelCar.Proofs.Stabilization.Tuning

/-!
# Valid tunings

A number brought into a range lies in the range, whatever it was before: `within_mem`.  The
ranges of a tuning are those that a valid tuning needs, but for one.  The largest correction
of the steering may be zero in its range, and has to be above zero in a valid tuning; so a
tuning in range is valid unless it allowed no correction before: `isValid_clamped_iff`.
-/

namespace ModelCar.Tuning

open Float.Model

/-! ### One number -/

section
variable {lo hi fallback x y : Float32}

/-- A finite number that a range leaves as it is lies on neither side of the range. -/
theorem not_lt_of_within_eq (hx : x.isFinite) (h : within lo hi fallback x = x) :
  ¬ x < lo ∧ ¬ hi < x
  := by
  have hself : ¬ x < x := by
    rw [single_lt_iff hx hx]
    apply lt_irrefl
  have hn : ¬ Scalar.isNaN x := not_isNaN_of_isFinite hx
  rw [within, if_neg hn] at h
  unfold Scalar.clamp at h
  split at h
  · rename_i hl
    rw [h] at hl
    cases hself hl
  · split at h
    · rename_i hh
      rw [h] at hh
      cases hself hh
    · constructor
      · assumption
      · assumption

/-- A number brought into a range lies in the range. -/
theorem within_mem (h : IsRange lo hi fallback) (x : Float32) :
  lo ≤ within lo hi fallback x ∧ within lo hi fallback x ≤ hi
  := by
  have hlo := (h lo (by simp)).1
  have hhi := (h hi (by simp)).1
  have hx := isFinite_within h x
  obtain ⟨hl, hh⟩ := not_lt_of_within_eq hx (within_within h x)
  rw [single_lt_iff hx hlo, not_lt] at hl
  rw [single_lt_iff hhi hx, not_lt] at hh
  constructor
  · rwa [single_le_iff hlo hx]
  · rwa [single_le_iff hx hhi]

theorem lt_within (h : IsRange lo hi fallback) (hy : y.isFinite) (hlt : y < lo)
    (x : Float32) :
  y < within lo hi fallback x
  := by
  have hlo := (h lo (by simp)).1
  have hx := isFinite_within h x
  have hle := (within_mem h x).1
  rw [single_lt_iff hy hlo] at hlt
  rw [single_le_iff hlo hx] at hle
  rw [single_lt_iff hy hx]
  apply lt_of_lt_of_le hlt hle

/-- What is not above zero is at most zero, if it is a number. -/
theorem le_zero_iff (x : Float32) :
  x ≤ 0.0 ↔ ¬ x.isNaN ∧ ¬ 0.0 < x
  := by
  have hle : x ≤ 0.0 ↔ x.toModel.unpack.le (.zero .positive) := decide_eq_true_iff
  have hn : x.isNaN ↔ x.toModel.unpack.isNaN := Iff.rfl
  rw [hle, hn, not_zero_lt_iff]
  cases x.toModel.unpack with
  | notANumber => simp [OnSide, UnpackedFloat.le, UnpackedFloat.compare, UnpackedFloat.isNaN]
  | zero s => simp [OnSide, UnpackedFloat.le, UnpackedFloat.compare, UnpackedFloat.isNaN]
  | infinity s =>
      cases s <;> simp [OnSide, UnpackedFloat.le, UnpackedFloat.compare, UnpackedFloat.isNaN]
  | finite s _ _ _ =>
      cases s <;> simp [OnSide, UnpackedFloat.le, UnpackedFloat.compare, UnpackedFloat.isNaN]

/-- What is below zero is not above it. -/
theorem not_zero_lt_of_lt (h : x < 0.0) :
  ¬ 0.0 < x
  := by
  rw [not_zero_lt_iff]
  rw [lt_iff_unpack, unpack_zero] at h
  cases hx : x.toModel.unpack with
  | notANumber => trivial
  | zero s => trivial
  | infinity s =>
      rw [hx] at h
      cases s with
      | negative => rfl
      | positive => cases h
  | finite s m e hm =>
      rw [hx] at h
      cases s with
      | negative => rfl
      | positive => cases h

/-- In a range from zero on only what was above zero is above zero.  What is not a number
gives way to the fallback. -/
theorem zero_lt_within_iff (hhi : (0.0 : Float32) < hi) (hf : (0.0 : Float32) < fallback)
    (h : IsRange 0.0 hi fallback) (x : Float32) :
  0.0 < within 0.0 hi fallback x ↔ ¬ x ≤ 0.0
  := by
  have hzero : (0.0 : Float32).isFinite := by decide
  have hfinite := (h hi (by simp)).1
  rw [le_zero_iff, not_and_not_right]
  unfold within Scalar.clamp
  split
  · rename_i hn
    exact iff_of_true hf fun h => absurd hn h
  · rename_i hn
    rw [imp_iff_right (show ¬ x.isNaN from hn)]
    split
    · rename_i hl
      apply iff_of_false
      · decide
      · intro hpos
        exact not_zero_lt_of_lt hl hpos
    · split
      · rename_i hh
        apply iff_of_true hhi
        by_contra hpos
        have hx := isFinite_of_gt hfinite hpos hh
        rw [single_lt_iff hzero hfinite] at hhi
        rw [single_lt_iff hfinite hx] at hh
        rw [single_lt_iff hzero hx] at hpos
        apply hpos
        apply lt_trans hhi hh
      · rfl

end

/-! ### All fields -/

/-- A tuning in range is valid exactly if it bears the mark and its largest correction of
the steering, before it was brought in range, was not zero or below. -/
theorem isValid_clamped_iff (t : Tuning Float32) :
  t.clamped.IsValid ↔ t.magic = mark ∧ ¬ t.maxCorrection ≤ 0.0
  := by
  have hgain : (0.0 : Float32) < t.clamped.attitudeGain ∧ t.clamped.attitudeGain ≤ 1.0 := by
    constructor
    · apply lt_within <;> decide +kernel
    · exact (within_mem (by decide +kernel) _).2
  have hcutoff : (5.0 : Float32) ≤ t.clamped.cutoff ∧ t.clamped.cutoff ≤ 100.0 := by
    apply within_mem
    decide +kernel
  have hrate : (0.0 : Float32) < t.clamped.sampleRate := by
    apply lt_within <;> decide +kernel
  have hproportional : (0.0 : Float32) ≤ t.clamped.proportional :=
    (within_mem (by decide +kernel) _).1
  have hintegral : (0.0 : Float32) ≤ t.clamped.integral :=
    (within_mem (by decide +kernel) _).1
  have hderivative : (0.0 : Float32) ≤ t.clamped.derivative :=
    (within_mem (by decide +kernel) _).1
  have hcorrection : 0.0 < t.clamped.maxCorrection ↔ ¬ t.maxCorrection ≤ 0.0 := by
    apply zero_lt_within_iff <;> decide +kernel
  have hyaw : (0.0 : Float32) < t.clamped.fullYawRate := by
    apply lt_within <;> decide +kernel
  rw [← hcorrection]
  constructor
  · rintro ⟨hmark, -, -, -, -, -, -, -, -, hpos, -⟩
    exact ⟨hmark, hpos⟩
  · rintro ⟨hmark, hpos⟩
    exact ⟨hmark, hgain.1, hgain.2, hcutoff.1, hcutoff.2, hrate, hproportional, hintegral,
      hderivative, hpos, hyaw⟩

end ModelCar.Tuning
