import ModelCar.Proofs.Control.Course
import ModelCar.Proofs.Control.Tuning
import ModelCar.Proofs.Stabilization.Validity

/-!
# Refused tunings

A tuning from outside is brought in range before it is judged, when a change of the tuning
is asked for and when a stored tuning is taken at the start.  Still it is refused if it
lacks the mark or allows no correction of the steering, and only then:
`tuning_refused_iff`.
-/

namespace ModelCar.Control

/-- A tuning that lacks the mark or allows no correction of the steering, whatever its other
fields are.  A largest correction that is not a number is none of these, since the usual one
takes its place. -/
def Unusable (t : Tuning Float32) : Prop :=
  t.magic ≠ Tuning.mark ∨ t.maxCorrection ≤ 0.0

instance (t : Tuning Float32) : Decidable (Unusable t) :=
  inferInstanceAs (Decidable (_ ∨ _))

theorem unusable_iff (t : Tuning Float32) :
  Unusable t ↔ ¬ t.clamped.IsValid
  := by rw [Tuning.isValid_clamped_iff, not_and_or, not_not, Unusable]

/-- A change of the tuning is refused exactly if the tuning in range is not valid. -/
theorem retune_eq_invalid_iff (c : Control) (t : Tuning Float32) (keep : Bool)
    (fault : Option Fault) :
  (c.retune t keep fault).1 = .error .invalid ↔ ¬ t.clamped.IsValid
  := by
  by_cases hv : t.clamped.IsValid
  · apply iff_of_false _ (not_not.mpr hv)
    cases keep with
    | false => simp [retune, hv]
    | true => cases fault <;> simp [retune, hv]
  · apply iff_of_true _ hv
    simp [retune, hv]

/-- A tuning with the mark is refused for the values of its fields in one case only, and
then always: a largest correction of the steering that is zero or below.  Brought in range
it is zero and not valid; a change of the tuning is answered as invalid; and a start that
finds it in the store uses the standard tuning, in all fields, instead of the tuning in
range. -/
theorem tuning_refused_iff (t : Tuning Float32) :
  (¬ t.clamped.IsValid ↔ Unusable t) ∧
  (∀ (c : Control) keep fault,
    (c.retune t keep fault).1 = .error .invalid ↔ Unusable t) ∧
  ∀ (c : Control) (s : Startup), s.tuning = some t →
    (c.launch s).1.tuning = if Unusable t then .standard else t.clamped
  := by
  refine ⟨(unusable_iff t).symm, ?_, ?_⟩
  · intro c keep fault
    rw [unusable_iff, retune_eq_invalid_iff]
  · intro c s hs
    rw [launch_tuning, hs, startTuning, Option.map_some]
    simp only [unusable_iff, ite_not]
    split
    · rfl
    · rfl

/-- The standard tuning without correction of the steering. -/
def uncorrecting : Tuning Float32 :=
  { Tuning.standard with maxCorrection := 0.0 }

/-- A start that finds it in the store uses the standard tuning. -/
theorem tuning_refused_uncorrecting :
  Unusable uncorrecting ∧
    ((ofSettings {}).launch { Startup.plain with tuning := some uncorrecting }).1.tuning
      = .standard
  := by
  have h : Unusable uncorrecting := by decide +kernel
  obtain ⟨-, -, hstart⟩ := tuning_refused_iff uncorrecting
  use h
  rw [hstart _ _ rfl, if_pos h]

/-- It bears the mark, every one of its numbers is in range, and it is refused. -/
theorem uncorrecting_refused :
  uncorrecting.magic = Tuning.mark ∧ uncorrecting.clamped = uncorrecting ∧
    ¬ uncorrecting.clamped.IsValid ∧
    ((ofSettings {}).retune uncorrecting true none).1 = .error .invalid
  := by decide +kernel

end ModelCar.Control
