import ModelCar.Proofs.Control.Start
import ModelCar.Proofs.Record.Reading

/-!
# The stored tuning

The tuning outlives the control loop in a store, from which the next start takes it.  A
change that is answered as done is in use and in the store, and it is the tuning of the
next start as well, bit for bit.
-/

namespace ModelCar

/-! ### The store -/

/-- The stored tuning after an effect. -/
def Effect.keepTuning (stored : Option (Tuning Float32)) :
    Effect → Option (Tuning Float32)
  | .storeTuning t none => some t
  | _ => stored

/-- The stored tuning after some effects. -/
def keepAllTunings (stored : Option (Tuning Float32)) (effects : List Effect) :
    Option (Tuning Float32) :=
  effects.foldl Effect.keepTuning stored

namespace Control

/-- What a change of the tuning leads to that is answered as done: the tuning in range is
in use, and it is stored if that was wanted. -/
theorem retune_of_ok {c : Control} {t applied : Tuning Float32} {keep : Bool}
    {fault : Option Fault} (h : (c.retune t keep fault).1 = .ok applied) :
  applied = t.clamped ∧ applied.IsValid ∧ (c.retune t keep fault).2.1 = (c.use applied).1 ∧
    (c.retune t keep fault).2.2 = (c.use applied).2 ++
      if keep then [.storeTuning applied none, .note .tuningStored] else []
  := by
  by_cases hv : t.clamped.IsValid
  · cases keep with
    | false =>
        simp only [retune, if_pos hv] at h ⊢
        cases h
        exact ⟨rfl, hv, rfl, (List.append_nil _).symm⟩
    | true =>
        cases fault with
        | none =>
            simp only [retune, if_pos hv] at h ⊢
            cases h
            exact ⟨rfl, hv, rfl, List.append_assoc ..⟩
        | some f =>
            simp only [retune, if_pos hv] at h
            cases h
  · simp only [retune, if_neg hv] at h
    cases h

/-- A start uses the stored tuning, as far as it can. -/
theorem launch_tuning (c : Control) (s : Startup) :
  (c.launch s).1.tuning = (startTuning s.tuning).1
  := by
  have ht : (c.tuned s).tuning = (startTuning s.tuning).1 := by
    rw [tuned, use_eq]
    rfl
  rw [launch_frame, ← ht]
  show (c.calibrating s).tuning = _
  obtain ⟨-, target, h⟩ | ⟨-, h⟩ := startCalibration_cases (c.tuned s)
  · rw [calibrating, h]
    rfl
  · rw [calibrating, h]

/-- A stored tuning that is in range already is used as it is. -/
theorem startTuning_of_clamped {t : Tuning Float32} (h : t.clamped = t) (hv : t.IsValid) :
  (startTuning (some t)).1 = t
  := by
  simp only [startTuning, Option.map_some, h, if_pos hv]

/-- With working actuators and failsafe a new control loop starts. -/
theorem start_ofSettings (u : Settings) {s : Startup} (ho : s.outputFault = none)
    (hf : s.failsafeFault = none) :
  (ofSettings u).start s = (.ok (), (ofSettings u).launch s)
  := by
  simp [start, ofSettings, ho, hf]

/-- A change of the tuning that is to be stored and is answered as done, whatever tuning
was asked for and in whatever state: the tuning of the answer is in use, it is stored, it
is read from its record as it was, and it is the tuning of every new control loop that
starts with it in the store. -/
theorem acknowledged_tuning_kept (c : Control) (t applied : Tuning Float32)
    (fault : Option Fault) (stored : Option (Tuning Float32))
    (h : (c.retune t true fault).1 = .ok applied) :
  (c.retune t true fault).2.1.tuning = applied ∧
    keepAllTunings stored (c.retune t true fault).2.2 = some applied ∧
    Record.toTuning (Record.ofTuning applied) = .ok applied ∧
    ∀ (u : Settings) (s : Startup), s.outputFault = none → s.failsafeFault = none →
      s.tuning = some applied →
        ((ofSettings u).start s).1 = .ok () ∧ ((ofSettings u).start s).2.1.tuning = applied
  := by
  obtain ⟨ht, hv, hc, he⟩ := retune_of_ok h
  have hfinite : applied.numbers.all Float32.isFinite := by
    rw [ht]
    apply Tuning.isFinite_clamped
  refine ⟨?_, ?_, ?_, ?_⟩
  · rw [hc, use_eq]
    rfl
  · rw [he, keepAllTunings, List.foldl_append]
    rfl
  · rw [Record.toTuning_ofTuning, if_pos hv.1, if_pos hfinite]
  · intro u s ho hf hs
    have hclamped : applied.clamped = applied := by
      rw [ht, Tuning.clamped_clamped]
    rw [start_ofSettings u ho hf]
    use rfl
    rw [launch_tuning, hs, startTuning_of_clamped hclamped hv]

/-- The standard tuning asked for with a cutoff that is not a number. -/
theorem standard_tuning_kept :
  ((ofSettings {}).retune { Tuning.standard with cutoff := 0.0 / 0.0 } true none).1
      = .ok .standard ∧
    ((ofSettings {}).retune { Tuning.standard with cutoff := 0.0 / 0.0 } true none).2.1.tuning
      = .standard
  := by
  have h : ((ofSettings {}).retune { Tuning.standard with cutoff := 0.0 / 0.0 } true none).1
      = .ok .standard := by decide +kernel
  exact ⟨h, (acknowledged_tuning_kept _ _ _ none none h).1⟩

end Control

end ModelCar
