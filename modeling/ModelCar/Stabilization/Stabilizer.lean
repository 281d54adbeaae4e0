import ModelCar.Stabilization.Tuning

/-!
# The stabilizer

A `Stabilizer` corrects a command: the steering so that the car turns at the rate that
the steering stands for, and the throttle against the pitch.  Its corrections are
multiplied by a weight between zero and one, which fades when the stabilization is
switched on or off.
-/

namespace ModelCar

/-- The stabilization with its tuning, its controller of the yaw rate, and its
weight. -/
structure Stabilizer (α : Type) where
  tuning : Tuning α
  pid : Pid α
  weight : α
deriving DecidableEq, Inhabited

/-- A command and what the sensor says about the car: the yaw rate in degrees per
second and the pitch in degrees. -/
structure Stabilizer.Input (α : Type) where
  throttle : α
  steering : α
  yawRate : α
  pitch : α

namespace Stabilizer

variable {α : Type} [Scalar α]

/-- The stabilizer at the start. -/
def start : Stabilizer α :=
  ⟨.standard, .start Tuning.standard.gains, 0.0⟩

/-- Changes the tuning. -/
def retune (s : Stabilizer α) (t : Tuning α) : Stabilizer α :=
  { s with tuning := t, pid := { s.pid with gains := t.gains } }

/-- The change of the weight in a time. -/
def fadeStep (t : Tuning α) (elapsed : Millis) : α :=
  if t.fade = 0 then 1.0
  else Scalar.ofNat elapsed.toNat / Scalar.ofNat t.fade.toNat

/-- The weight after a time, when the stabilization is wanted or not. -/
def fadedWeight (s : Stabilizer α) (wanted : Bool) (elapsed : Millis) : α :=
  let step := fadeStep s.tuning elapsed
  if wanted then
    let raised := s.weight + step
    if raised < 1.0 then raised else 1.0
  else
    let lowered := s.weight - step
    if 0.0 < lowered then lowered else 0.0

/-- The correction of the throttle. -/
def pitchCorrection (t : Tuning α) (pitch : α) : α :=
  Pid.confine t.maxPitchCorrection (pitch * t.pitchGain)

/-- The corrected throttle and steering after a time.  The stabilization acts only if
it is switched on and can be trusted. -/
def step (s : Stabilizer α) (trusted : Bool) (input : Input α) (elapsed : Millis) :
    (α × α) × Stabilizer α :=
  let weight := s.fadedWeight (s.tuning.enabled && trusted) elapsed
  if weight ≤ 0.0 then
    ((input.throttle, input.steering), ⟨s.tuning, s.pid.reset, weight⟩)
  else
    let error := input.steering * s.tuning.fullYawRate - input.yawRate
    let (correction, pid) := s.pid.step error (Scalar.ofNat elapsed.toNat / 1000.0)
    let steering := input.steering + weight * correction
    let throttle :=
      if s.tuning.pitchEnabled then
        input.throttle + weight * pitchCorrection s.tuning input.pitch
      else input.throttle
    ((Scalar.clampUnit throttle, Scalar.clampUnit steering), ⟨s.tuning, pid, weight⟩)

end Stabilizer

end ModelCar
