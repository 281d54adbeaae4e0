import ModelCar.Motion.Inertial

/-!
# Validity of calibration data

Data that are valid stay valid while samples are taken in: a first stage makes them
valid, and a second stage keeps what they were.
-/

namespace ModelCar

namespace Calibration

variable {α β : Type} [Scalar α] [Scalar β] [Precision α β]

/-- A calibration that succeeds does not make valid data invalid. -/
theorem valid_of_result {t : Tally α β} {mode : Mode} {d e : CalibrationData α}
    (h : t.result? mode d = some e) (hd : d.valid) :
  e.valid
  := by
  cases mode with
  | gyro =>
      simp only [Tally.result?] at h
      split at h
      · cases h
      · cases h
        rfl
  | full =>
      simp only [Tally.result?] at h
      split at h
      · cases h
      · cases h
        rfl
  | forward =>
      simp only [Tally.result?] at h
      split at h
      · cases h
      · split at h
        · cases h
          exact hd
        · cases h
          exact hd

theorem valid_finish {c : Calibration α β} (h : c.data.valid) :
  c.finish.data.valid
  := by
  unfold finish
  split
  · rename_i data hr
    exact valid_of_result hr h
  · exact h

theorem valid_feed {c : Calibration α β} (s : Sample α) (h : c.data.valid) :
  (c.feed s).data.valid
  := by
  simp only [feed]
  split
  · split
    · exact valid_finish h
    · exact h
  · exact h

/-- Data that are believed are taken over as valid as they are. -/
theorem valid_load {c : Calibration α β} {d : CalibrationData α}
    (h : objection? d = none) :
  (c.load d).data.valid = d.valid
  := by simp only [load, h]

end Calibration

namespace Inertial

theorem update_enabled (i : Inertial) (now : Millis) (reading : Option (Sample Float32)) :
  (i.update now reading).enabled = i.enabled
  := by
  simp only [update]
  split
  · rfl
  · cases reading <;> rfl

/-- Without a sensor nothing is taken in. -/
theorem update_of_not_enabled {i : Inertial} (h : ¬ i.enabled) (now : Millis)
    (reading : Option (Sample Float32)) :
  i.update now reading = i
  := by simp only [update, due, if_neg h]

theorem valid_update {i : Inertial} (now : Millis) (reading : Option (Sample Float32))
    (h : i.calibration.data.valid) :
  (i.update now reading).calibration.data.valid
  := by
  simp only [update]
  split
  · exact h
  · cases reading with
    | none => exact h
    | some raw => exact Calibration.valid_feed raw h

end Inertial

end ModelCar
