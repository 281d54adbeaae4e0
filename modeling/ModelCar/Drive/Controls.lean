import ModelCar.Number.Layout
import ModelCar.Number.Scalar

/-!
# Positions of the controls

The positions of throttle and steering, always numbers between `-1` and `1`.  Every
operation holds its result in this range, and what is not a number counts as `0`.
-/

namespace ModelCar

/-- A number between `-1` and `1`. -/
def InUnit (x : Float32) : Prop :=
  ¬ x.isNaN ∧ ¬ x < -1.0 ∧ ¬ 1.0 < x

theorem inUnit_zero :
  InUnit 0.0
  := ⟨by decide, by decide, by decide⟩

theorem inUnit_clampUnit (x : Float32) :
  InUnit (Scalar.clampUnit x)
  := by
  unfold Scalar.clampUnit Scalar.clamp
  split
  · exact inUnit_zero
  · split
    · exact ⟨by decide, by decide, by decide⟩
    · split
      · exact ⟨by decide, by decide, by decide⟩
      · exact ⟨‹_›, ‹_›, ‹_›⟩

/-- The positions of throttle and steering. -/
structure Controls where
  throttle : Float32
  steering : Float32
  throttle_mem : InUnit throttle
  steering_mem : InUnit steering
deriving DecidableEq

namespace Controls

/-- The positions nearest to two numbers. -/
def clamped (throttle steering : Float32) : Controls :=
  ⟨Scalar.clampUnit throttle, Scalar.clampUnit steering, inUnit_clampUnit _,
    inUnit_clampUnit _⟩

/-- Both controls at rest. -/
def neutral : Controls :=
  ⟨0.0, 0.0, inUnit_zero, inUnit_zero⟩

instance : Inhabited Controls := ⟨neutral⟩

/-- The same steering with another throttle. -/
def withThrottle (c : Controls) (x : Float32) : Controls :=
  ⟨Scalar.clampUnit x, c.steering, inUnit_clampUnit _, c.steering_mem⟩

/-- The same throttle with another steering. -/
def withSteering (c : Controls) (x : Float32) : Controls :=
  ⟨c.throttle, Scalar.clampUnit x, c.throttle_mem, inUnit_clampUnit _⟩

/-- Both positions multiplied by a factor. -/
def scaled (c : Controls) (factor : Float32) : Controls :=
  clamped (c.throttle * factor) (c.steering * factor)

/-- The throttle in the other direction. -/
def invertedThrottle (c : Controls) : Controls :=
  clamped (-c.throttle) c.steering

/-- The steering in the other direction. -/
def invertedSteering (c : Controls) : Controls :=
  clamped c.throttle (-c.steering)

/-- Both positions lie in a dead zone around the rest position. -/
def isNeutral (c : Controls) (zone : Float32) : Bool :=
  c.throttle.abs ≤ zone ∧ c.steering.abs ≤ zone

/-- The larger deflection of the two. -/
def deflection (c : Controls) : Float32 :=
  Scalar.larger c.throttle.abs c.steering.abs

/-- Both positions as text. -/
def text (c : Controls) : String :=
  "thr=" ++ fixed 3 c.throttle ++ " steer=" ++ fixed 3 c.steering

end Controls

end ModelCar
