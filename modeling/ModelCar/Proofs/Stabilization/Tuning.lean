import ModelCar.Proofs.Number.Sign
import ModelCar.Stabilization.Tuning

/-!
# Tunings in range

Bringing every field of a tuning into its range leaves nothing to be done: doing it again
changes nothing, and all numbers are finite then, whatever they were before.
-/

namespace ModelCar

namespace Tuning

/-- The numbers of a tuning. -/
def numbers {α : Type} (t : Tuning α) : List α :=
  [t.attitudeGain, t.cutoff, t.sampleRate, t.proportional, t.integral, t.derivative,
    t.maxIntegral, t.maxCorrection, t.fullYawRate, t.pitchGain, t.maxPitchCorrection]

/-! ### One number -/

/-- The ends of a range and the fallback are finite numbers that lie in the range. -/
def IsRange (lo hi fallback : Float32) : Prop :=
  ∀ x ∈ [lo, hi, fallback], x.isFinite ∧ within lo hi fallback x = x

instance (lo hi fallback : Float32) : Decidable (IsRange lo hi fallback) :=
  inferInstanceAs (Decidable (∀ x ∈ _, _))

variable {lo hi fallback : Float32}

/-- A number in a range is one of its ends, or the fallback, or a number between the
ends. -/
theorem within_cases (lo hi fallback x : Float32) :
  within lo hi fallback x ∈ [lo, hi, fallback] ∨
    within lo hi fallback x = x ∧ ¬ x.isNaN ∧ ¬ x < lo ∧ ¬ hi < x
  := by
  unfold within Scalar.clamp
  split
  · left
    simp
  · split
    · left
      simp
    · split
      · left
        simp
      · right
        exact ⟨rfl, ‹_›, ‹_›, ‹_›⟩

theorem within_within (h : IsRange lo hi fallback) (x : Float32) :
  within lo hi fallback (within lo hi fallback x) = within lo hi fallback x
  := by
  obtain hm | ⟨hx, -⟩ := within_cases lo hi fallback x
  · exact (h _ hm).2
  · rw [hx, hx]

theorem isFinite_within (h : IsRange lo hi fallback) (x : Float32) :
  (within lo hi fallback x).isFinite
  := by
  obtain hm | ⟨hx, hn, hl, hh⟩ := within_cases lo hi fallback x
  · exact (h _ hm).1
  · rw [hx]
    apply isFinite_of_not_lt (h lo (by simp)).1 (h hi (by simp)).1 hn hl hh

/-! ### All fields -/

theorem ofCode_code (mode : DriveMode) :
  DriveMode.ofCode mode.code = mode
  := by
  rw [DriveMode.ofCode, DriveMode.ofCode?_code, Option.getD_some]

theorem min_min (a b : Millis) :
  min (min a b) b = min a b
  := by
  have h : min a b ≤ b := by
    show (if a ≤ b then a else b) ≤ b
    split
    · assumption
    · exact UInt32.le_refl b
  exact if_pos h

/-- A tuning in range stays as it is. -/
theorem clamped_clamped (t : Tuning Float32) :
  t.clamped.clamped = t.clamped
  := by
  simp (disch := decide +kernel) only [clamped, within_within, ofCode_code, min_min]

/-- All numbers of a tuning in range are finite. -/
theorem isFinite_clamped (t : Tuning Float32) :
  t.clamped.numbers.all Float32.isFinite
  := by
  simp (disch := decide +kernel) only [clamped, numbers, List.all_cons, isFinite_within,
    List.all_nil, Bool.and_true]

/-- A tuning that may be used and that is in range as it is. -/
def IsClean (t : Tuning Float32) : Prop :=
  t.IsValid ∧ t.clamped = t

instance (t : Tuning Float32) : Decidable t.IsClean :=
  inferInstanceAs (Decidable (_ ∧ _))

theorem isClean_standard :
  (standard : Tuning Float32).IsClean
  := by decide +kernel

theorem isClean_clamped {t : Tuning Float32} (h : t.clamped.IsValid) :
  t.clamped.IsClean
  := ⟨h, clamped_clamped t⟩

theorem IsClean.isFinite {t : Tuning Float32} (h : t.IsClean) :
  ∀ x ∈ t.numbers, x.isFinite
  := by
  rw [← h.2]
  exact List.all_eq_true.mp (isFinite_clamped t)

end Tuning

end ModelCar
