import ModelCar.Motion.Quaternion

/-!
# The attitude filter

An `Attitude` follows the orientation of the car.  Each sample turns it by the measured
rate, and pulls it, by one step down the gradient, towards the orientation in which the
measured acceleration points down.  It has norm one at all times.  Once the forward
direction of the car in its sensor is known, `orientation` is the one of the car.
-/

namespace ModelCar

/-- The orientation of the sensor, how strongly acceleration corrects it, and the
orientation of the car in the sensor. -/
structure Attitude (α : Type) where
  rotation : Quaternion α
  gain : α
  frame : Option (Quaternion α)
deriving DecidableEq, Inhabited

namespace Attitude

section
variable {α : Type} [Scalar α]

/-- The filter at the start, with a given gain. -/
def start (gain : α) : Attitude α :=
  ⟨.identity, gain, none⟩

/-- The gain that is used unless another one is given. -/
def defaultGain : α := 0.1

/-- The number of radians in a degree. -/
def radiansPerDegree : α := Scalar.pi / 180.0

/-- The number of degrees in a radian. -/
def degreesPerRadian : α := 180.0 / Scalar.pi

/-- Forgets the orientation of the sensor. -/
def reset (a : Attitude α) : Attitude α :=
  { a with rotation := .identity }

/-- Half the product of an orientation with a rate of rotation in radians per
second: the speed at which the orientation turns. -/
@[inline] def spin (q : Quaternion α) (gx gy gz : α) : Quaternion α where
  w := 0.5 * (-q.x * gx - q.y * gy - q.z * gz)
  x := 0.5 * (q.w * gx + q.y * gz - q.z * gy)
  y := 0.5 * (q.w * gy - q.x * gz + q.z * gx)
  z := 0.5 * (q.w * gz + q.x * gy - q.y * gx)

/-- The gradient of the distance between a measured direction of length one and the
direction in which gravity appears in an orientation. -/
@[inline] def gradient (q : Quaternion α) (ax ay az : α) : Quaternion α where
  w := 4.0 * q.w * (q.y * q.y) + 2.0 * q.y * ax + 4.0 * q.w * (q.x * q.x) - 2.0 * q.x * ay
  x := 4.0 * q.x * (q.z * q.z) - 2.0 * q.z * ax + 4.0 * (q.w * q.w) * q.x
    - 2.0 * q.w * ay - 4.0 * q.x + 8.0 * q.x * (q.x * q.x) + 8.0 * q.x * (q.y * q.y)
    + 4.0 * q.x * az
  y := 4.0 * (q.w * q.w) * q.y + 2.0 * q.w * ax + 4.0 * q.y * (q.z * q.z)
    - 2.0 * q.z * ay - 4.0 * q.y + 8.0 * q.y * (q.x * q.x) + 8.0 * q.y * (q.y * q.y)
    + 4.0 * q.y * az
  z := 4.0 * (q.x * q.x) * q.z - 2.0 * q.x * ax + 4.0 * (q.y * q.y) * q.z
    - 2.0 * q.y * ay

/-- The speed of the orientation, pulled against a gradient of usable size. -/
def corrected (gain : α) (speed slope : Quaternion α) : Quaternion α :=
  let size := slope.norm
  if 0.0 < size ∧ Scalar.isFinite size then
    { w := speed.w - gain * slope.w / size
      x := speed.x - gain * slope.x / size
      y := speed.y - gain * slope.y / size
      z := speed.z - gain * slope.z / size }
  else speed

/-- The square of an acceleration, exclusive, up to which it shows no direction. -/
def smallestAcceleration : α := 1e-12

/-- How fast the orientation changes under a sample. -/
def speed (gain : α) (q : Quaternion α) (s : Sample α) : Quaternion α :=
  let turn : Vector3 α := s.rate.map (· * radiansPerDegree)
  let speed := spin q turn.x turn.y turn.z
  let a := s.acceleration
  let size := a.dot a
  if Scalar.isFinite size ∧ smallestAcceleration < size then
    let scale := 1.0 / Scalar.sqrt size
    corrected gain speed (gradient q (a.x * scale) (a.y * scale) (a.z * scale))
  else speed

/-- The orientation after a time at a speed, not normalized. -/
def integrate (q speed : Quaternion α) (seconds : α) : Quaternion α where
  w := q.w + speed.w * seconds
  x := q.x + speed.x * seconds
  y := q.y + speed.y * seconds
  z := q.z + speed.z * seconds

/-- The filter after a sample that stands for a positive time in seconds.  Without a
usable result it stays where it was. -/
def advance (a : Attitude α) (s : Sample α) (seconds : α) : Attitude α :=
  if Scalar.isNaN seconds ∨ seconds ≤ 0.0 then a
  else
    match (integrate a.rotation (speed a.gain a.rotation s) seconds).normalized? with
    | some q => { a with rotation := q }
    | none => a

/-- The square of a horizontal forward direction below which it shows no heading. -/
def smallestHeading : α := 1e-12

/-- The frame of a car whose forward direction in the sensor is known: the third axis
stays, and the first one takes the heading. -/
def frameOf (forward : Vector3 α) : Option (Quaternion α) :=
  let size := forward.x * forward.x + forward.y * forward.y
  if ¬ Scalar.isFinite size ∨ size < smallestHeading then none
  else
    let n := Scalar.sqrt size
    let (x, y) := (forward.x / n, forward.y / n)
    (Quaternion.ofAxes ⟨x, y, 0.0⟩ ⟨-y, x, 0.0⟩ ⟨0.0, 0.0, 1.0⟩).normalized?

/-- Sets the forward direction of the car, if it is known. -/
def setForward (a : Attitude α) (forward : Option (Vector3 α)) : Attitude α :=
  { a with frame := forward.bind frameOf }

/-- The orientation of the car, or of the sensor as long as no forward direction is
known. -/
def orientation (a : Attitude α) : Quaternion α :=
  match a.frame with
  | some frame => a.rotation * frame
  | none => a.rotation

end

end Attitude

/-- The angles of an orientation: pitch about the second axis, roll about the first,
yaw about the third. -/
structure Angles where
  pitch : Float32
  roll : Float32
  yaw : Float32
deriving DecidableEq, Inhabited

namespace Attitude

/-- The angles of the orientation in radians. -/
def radians (a : Attitude Float32) : Angles :=
  let q := a.orientation
  { pitch := (Scalar.clamp (-1.0) 1.0 (2.0 * (q.w * q.y - q.z * q.x))).asin
    roll := (2.0 * (q.w * q.x + q.y * q.z)).atan2 (1.0 - 2.0 * (q.x * q.x + q.y * q.y))
    yaw := (2.0 * (q.w * q.z + q.x * q.y)).atan2 (1.0 - 2.0 * (q.y * q.y + q.z * q.z)) }

/-- The angles of the orientation in degrees. -/
def degrees (a : Attitude Float32) : Angles :=
  let r := a.radians
  ⟨r.pitch * degreesPerRadian, r.roll * degreesPerRadian, r.yaw * degreesPerRadian⟩

end Attitude

end ModelCar
