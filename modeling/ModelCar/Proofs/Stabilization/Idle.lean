import ModelCar.Proofs.Number.Sign
import ModelCar.Proofs.Number.Single
import ModelCar.Proofs.Stabilization.Course

/-!
# A stabilizer that is not in use

The weight of the stabilizer is zero at the start.  As long as no tuning is used that
switches the stabilization on, it cannot rise: a step lowers it, and below zero it does not
go, because the fade takes no negative time.  So every step leaves the command as it is,
and starts the controller afresh, whatever the sensor says.
-/

namespace ModelCar.Stabilizer

/-- The weight is zero, and the fade is not longer than the longest one. -/
structure Idle (s : Stabilizer Float32) : Prop where
  weight : s.weight = 0.0
  fade_le : s.tuning.fade ≤ Tuning.longestFade

variable {s : Stabilizer Float32}

theorem idle_start :
  (start : Stabilizer Float32).Idle
  := ⟨rfl, by decide⟩

theorem Idle.ask (h : s.Idle) (t : Tuning Float32) :
  (s.ask t).Idle
  := by
  constructor
  · rw [ask_weight]
    exact h.weight
  · unfold Stabilizer.ask
    split
    · show (if t.fade ≤ Tuning.longestFade then t.fade else Tuning.longestFade) ≤ _
      split
      · assumption
      · exact UInt32.le_refl _
    · exact h.fade_le

theorem Idle.askAll (h : s.Idle) (asked : List (Tuning Float32)) :
  (s.askAll asked).Idle
  := by
  induction asked generalizing s with
  | nil => exact h
  | cons t asked ih =>
      apply ih
      apply h.ask t

/-- No time passes in the negative direction. -/
theorem Idle.not_fadeStep_lt_zero (h : s.Idle) (elapsed : Millis) :
  ¬ fadeStep s.tuning elapsed < 0.0
  := by
  unfold fadeStep
  split
  · decide
  · rename_i hzero
    have hle : s.tuning.fade.toNat ≤ 5000 := h.fade_le
    have hpos : 0 < s.tuning.fade.toNat := UInt32.pos_iff_ne_zero.mpr hzero
    obtain ⟨hfinite, hvalue⟩ := single_ofNat (n := s.tuning.fade.toNat) (by omega)
    apply not_div_lt_zero _ _ hfinite
    · apply not_ofNat_lt_zero
    · rw [single_lt_iff rfl hfinite, single_zero]
      show 0 < single (Float32.ofNat s.tuning.fade.toNat)
      rw [hvalue]
      exact_mod_cast hpos

/-- A step of a stabilizer that is not in use, while it is not switched on, leaves the
command as it is. -/
theorem Idle.step (h : s.Idle) (he : ¬ s.tuning.enabled) (trusted : Bool)
    (input : Input Float32) (elapsed : Millis) :
  s.step trusted input elapsed =
    ((input.throttle, input.steering), ⟨s.tuning, s.pid.reset, 0.0⟩)
  := by
  have hw : s.fadedWeight (s.tuning.enabled && trusted) elapsed = 0.0 := by
    rw [Bool.eq_false_of_not_eq_true he, Bool.false_and, fadedWeight, h.weight,
      if_neg Bool.false_ne_true]
    apply if_neg
    apply not_zero_lt_zero_sub
    apply h.not_fadeStep_lt_zero
  have hle : (0.0 : Float32) ≤ 0.0 := by decide
  simp only [Stabilizer.step, hw, if_pos hle]

/-- So does a turn, when no tuning is asked for that switches the stabilization on. -/
theorem Idle.turn (h : s.Idle) {asked : List (Tuning Float32)}
    (he : ¬ (s.askAll asked).tuning.enabled) (trusted : Bool) (input : Input Float32)
    (elapsed : Millis) :
  s.turn asked trusted input elapsed =
      ((input.throttle, input.steering),
        ⟨(s.askAll asked).tuning, (s.askAll asked).pid.reset, 0.0⟩) ∧
    (s.turn asked trusted input elapsed).2.Idle
  := by
  have hstep := (h.askAll asked).step he trusted input elapsed
  use hstep
  rw [Stabilizer.turn, hstep]
  exact ⟨rfl, (h.askAll asked).fade_le⟩

end ModelCar.Stabilizer
