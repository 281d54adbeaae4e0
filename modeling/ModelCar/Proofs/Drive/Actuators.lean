import ModelCar.Drive.Actuators
import ModelCar.Proofs.Number.Sign

/-!
# Actuators at rest

An output at rest whose target is at rest does not move, whatever time has passed: the
range of its motion is not below zero, so the distance, which is zero, is neither above
the range nor below its negative.
-/

namespace ModelCar

theorem not_slewRange_lt_zero {speed : Float32} (h : ¬ speed < 0.0) (elapsed : Millis) :
  ¬ slewRange speed elapsed < 0.0
  := by
  apply not_div_thousand_lt_zero
  apply not_mul_lt_zero h
  apply not_ofNat_lt_zero

/-- At rest, with a target at rest, an output stays there. -/
theorem slew_rest {speed : Float32} (h : ¬ speed < 0.0) (elapsed : Millis) :
  slew 0.0 0.0 speed elapsed = 0.0
  := by
  have hr := not_slewRange_lt_zero h elapsed
  have hd : (0.0 : Float32) - 0.0 = 0.0 := by decide
  unfold slew
  rw [if_neg, if_neg]
  · rw [hd]
    apply not_zero_lt_neg hr
  · rw [hd]
    exact hr

namespace Actuators

/-- Both actuators are at rest. -/
def AtRest (a : Actuators) : Prop :=
  a.throttle = 0.0 ∧ a.steering = 0.0

theorem atRest_stopped (a : Actuators) :
  a.stopped.AtRest
  := ⟨rfl, rfl⟩

/-- Actuators at rest follow a neutral target by staying at rest. -/
theorem AtRest.follow {a b : Actuators} (h : a.AtRest) {now : Millis}
    {throttleSpeed steeringSpeed : Float32} (ht : ¬ throttleSpeed < 0.0)
    (hs : ¬ steeringSpeed < 0.0)
    (hb : a.follow now .neutral throttleSpeed steeringSpeed = some b) :
  b.AtRest
  := by
  obtain ⟨elapsed, -, rfl⟩ := Option.map_eq_some_iff.mp hb
  constructor
  · rw [h.1]
    apply slew_rest ht
  · rw [h.2]
    apply slew_rest hs

end Actuators

end ModelCar
