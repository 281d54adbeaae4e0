import ModelCar.Motion.Sample
import ModelCar.Motion.Statistics

/-!
# Calibration of the motion sensor

A calibration collects a given number of samples.  In its first stage the car rests:
the mean rate of rotation is the bias of the gyroscope, and in full mode the mean
acceleration gives the direction of gravity and the bias of the accelerometer; a car
that moved meanwhile has too large a variance, and the stage fails.  In the second
stage the car is pushed: the sum of the accelerations beyond gravity gives its forward
direction.

Samples are numbers of `α`, while sums over many samples are kept in the wider `β`.
-/

namespace ModelCar

/-- What a calibration finds out, in the directions of the sensor. -/
structure CalibrationData (α : Type) where
  rateBias : Vector3 α
  accelerationBias : Vector3 α
  gravity : Vector3 α
  forward : Vector3 α
  valid : Bool
deriving DecidableEq, Inhabited

namespace Calibration

/-- What is calibrated: the gyroscope alone or the whole sensor at rest, or the forward
direction. -/
inductive Mode where
  | gyro
  | full
  | forward
deriving DecidableEq, Repr, Inhabited

/-- The name of a mode. -/
def Mode.name : Mode → String
  | gyro => "gyro"
  | full => "full"
  | forward => "forward"

/-- How far a calibration has come. -/
inductive Status where
  | idle
  | collecting
  | done
  | failed
deriving DecidableEq, Repr, Inhabited

/-- The name of a status. -/
def Status.name : Status → String
  | idle => "idle"
  | collecting => "collecting"
  | done => "done"
  | failed => "failed"

/-- Why calibration data are refused, or a calibration is not started. -/
inductive Refusal where
  | biasOutOfRange
  | notFinite
  | noGravity
  | busy
deriving DecidableEq, Repr

/-- The wording of a refusal. -/
def Refusal.message : Refusal → String
  | biasOutOfRange => "bias out of range"
  | notFinite => "non-finite value"
  | noGravity => "no valid gravity vector"
  | busy => "calibration in progress"

/-- What has been collected from the samples of a running calibration. -/
structure Tally (α β : Type) where
  rate : Vector3 (Moments β)
  acceleration : Vector3 (Moments β)
  /-- The sum of the accelerations beyond gravity. -/
  push : Vector3 β
  /-- The first one of them. -/
  firstPush : Option (Vector3 α)
deriving DecidableEq, Inhabited

end Calibration

/-- A calibration: the data it has found or was given, and the course of its last
run. -/
structure Calibration (α β : Type) where
  data : CalibrationData α
  status : Calibration.Status
  mode : Calibration.Mode
  target : Nat
  collected : Nat
  tally : Calibration.Tally α β
deriving DecidableEq, Inhabited

section
variable {α : Type} [Scalar α]

namespace Vector3

/-- The first axis, where forward is unless something else is known. -/
def ahead : Vector3 α := ⟨1.0, 0.0, 0.0⟩

/-- The third axis, where gravity is unless something else is known. -/
def down : Vector3 α := ⟨0.0, 0.0, 1.0⟩

/-- The zero vector. -/
def zero : Vector3 α := ⟨0.0, 0.0, 0.0⟩

/-- Every coordinate is finite. -/
def isFinite (v : Vector3 α) : Bool :=
  v.all Scalar.isFinite

end Vector3

/-- The data before any calibration. -/
def CalibrationData.unknown : CalibrationData α :=
  ⟨.zero, .zero, .down, .ahead, false⟩

/-- Every number of the data is finite. -/
def CalibrationData.isFinite (d : CalibrationData α) : Bool :=
  d.rateBias.isFinite && d.accelerationBias.isFinite && d.gravity.isFinite
    && d.forward.isFinite

variable {β : Type} [Scalar β] [Precision α β]

/-- The square of the length of a vector, in the wider number system. -/
def Vector3.lengthSq (v : Vector3 α) : β :=
  (v.map Precision.widen).dot (v.map Precision.widen)

/-- A vector of the wider number system divided by a number. -/
def Vector3.over (v : Vector3 β) (n : β) : Vector3 α :=
  v.map fun x => Precision.narrow (x / n)

/-- The square of a length below which a vector shows no direction. -/
def Vector3.smallestLengthSq : β := 1e-6

variable (β) in
/-- The vector of length one in the same direction, or a fallback for a vector that is
too short. -/
def Vector3.directionOr (fallback v : Vector3 α) : Vector3 α :=
  let size : β := v.lengthSq
  if size < smallestLengthSq then fallback
  else (v.map (Precision.widen (β := β))).over (Scalar.sqrt size)

namespace Calibration

/-- Nothing collected. -/
def Tally.empty : Tally α β :=
  ⟨⟨.empty, .empty, .empty⟩, ⟨.empty, .empty, .empty⟩, .zero, none⟩

/-- The number of samples of the first stage, unless another one is given. -/
def defaultRestTarget : Nat := 1000

/-- The number of samples of the second stage, unless another one is given. -/
def defaultPushTarget : Nat := 2000

/-- A calibration that was never run. -/
def unset : Calibration α β :=
  ⟨.unknown, .idle, .gyro, defaultRestTarget, 0, .empty⟩

/-- The data say where gravity is, as the second stage needs. -/
def hasGravity (c : Calibration α β) : Bool :=
  c.data.valid && ¬ (c.data.gravity.lengthSq : β) < Vector3.smallestLengthSq

/-- Starts collecting in a mode. -/
def collect (c : Calibration α β) (mode : Mode) (target : Nat) : Calibration α β :=
  { c with
    mode := mode
    target := target
    status := .collecting
    collected := 0
    tally := .empty }

/-- Starts the stage of a mode with a number of samples, where `0` stands for the usual
number. -/
def start (c : Calibration α β) (mode : Mode) (samples : Nat) :
    Except Refusal (Calibration α β) :=
  match mode with
  | .forward =>
    if c.hasGravity then
      .ok (c.collect .forward (if samples = 0 then defaultPushTarget else samples))
    else .error .noGravity
  | mode => .ok (c.collect mode (if samples = 0 then defaultRestTarget else samples))

/-! ### Collecting -/

/-- Adds one sample per axis. -/
def pushAll (m : Vector3 (Moments β)) (v : Vector3 α) : Vector3 (Moments β) :=
  m.zipWith (fun m x => m.push (Precision.widen x)) v

/-- The acceleration of a sample beyond gravity. -/
def pushOf (d : CalibrationData α) (s : Sample α) : Vector3 α :=
  s.acceleration - d.accelerationBias - d.gravity

/-- The square of an acceleration beyond gravity from which on the car is being
pushed. -/
def smallestPush : α := 0.05 * 0.05

/-- Adds a sample of a calibration in some mode. -/
def Tally.add (t : Tally α β) (mode : Mode) (d : CalibrationData α) (s : Sample α) :
    Tally α β :=
  match mode with
  | .gyro => { t with rate := pushAll t.rate s.rate }
  | .full =>
    { t with
      rate := pushAll t.rate s.rate
      acceleration := pushAll t.acceleration s.acceleration }
  | .forward =>
    let push := pushOf d s
    if (Precision.widen (smallestPush : α) : β) ≤ push.lengthSq then
      { t with
        push := t.push + push.map Precision.widen
        firstPush := t.firstPush <|> some push }
    else t

/-! ### Finishing -/

/-- The largest variance of a rate of rotation at rest. -/
def rateVarianceLimit : β := 0.5

/-- The largest variance of an acceleration at rest. -/
def accelerationVarianceLimit : β := 0.01

/-- Some axis varies more than a limit allows. -/
def varies (limit : β) (m : Vector3 (Moments β)) : Bool :=
  m.any fun m => limit < m.variance

/-- The means of three axes. -/
def means (m : Vector3 (Moments β)) : Vector3 β :=
  m.map Moments.mean

/-- Gravity in the direction nearest to the third axis. -/
def expectedGravity (mean : Vector3 β) : Vector3 β :=
  ⟨0.0, 0.0, if 0.0 ≤ mean.z then 1.0 else -1.0⟩

/-- The data that a mean acceleration at rest leads to. -/
def restData (d : CalibrationData α) (mean : Vector3 β) : CalibrationData α :=
  let size := mean.dot mean
  { d with
    accelerationBias :=
      ⟨Precision.narrow mean.x, Precision.narrow mean.y,
        Precision.narrow (mean.z - (expectedGravity mean).z)⟩
    gravity :=
      if Vector3.smallestLengthSq ≤ size then mean.over (Scalar.sqrt size)
      else d.gravity }

/-- The square of a sum of accelerations below which it shows no direction. -/
def smallestSum : β := 1e-8

/-- The data at the end of a calibration, if it succeeds. -/
def Tally.result? (t : Tally α β) (mode : Mode) (d : CalibrationData α) :
    Option (CalibrationData α) :=
  let rateBias := (means t.rate).map Precision.narrow
  match mode with
  | .gyro =>
    if varies rateVarianceLimit t.rate then none
    else some { d with rateBias := rateBias, valid := true }
  | .full =>
    if varies rateVarianceLimit t.rate
        ∨ varies accelerationVarianceLimit t.acceleration then none
    else
      some (restData { d with rateBias := rateBias, valid := true } (means t.acceleration))
  | .forward =>
    let size := t.push.dot t.push
    if size < smallestSum then none
    else
      let forward : Vector3 α := t.push.over (Scalar.sqrt size)
      match t.firstPush with
      | none => some { d with forward := forward }
      | some first =>
        some { d with forward := if forward.dot first < 0.0 then -forward else forward }

/-- Ends a calibration that has all its samples. -/
def finish (c : Calibration α β) : Calibration α β :=
  match c.tally.result? c.mode c.data with
  | some data => { c with data := data, status := .done }
  | none => { c with status := .failed }

/-- Takes in a sample, if the calibration is running. -/
def feed (c : Calibration α β) (s : Sample α) : Calibration α β :=
  if c.status = .collecting then
    let c := { c with
      tally := c.tally.add c.mode c.data s
      collected := c.collected + 1 }
    if c.target ≤ c.collected then c.finish else c
  else c

/-! ### Using the data -/

/-- A sample without the biases, once they are known. -/
def correct (c : Calibration α β) (s : Sample α) : Sample α :=
  if c.data.valid then
    ⟨s.acceleration - c.data.accelerationBias, s.rate - c.data.rateBias⟩
  else s

/-- The stage that is running: none, the first or the second. -/
def stage (c : Calibration α β) : Nat :=
  if c.status = .collecting then
    if c.mode = .forward then 2 else 1
  else 0

/-- The largest bias of a rate of rotation that is believed. -/
def rateBiasLimit : α := 20.0

/-- The largest bias of an acceleration that is believed. -/
def accelerationBiasLimit : α := 0.5

/-- Why some data are not believed. -/
def objection? (d : CalibrationData α) : Option Refusal :=
  if ¬ d.isFinite then some .notFinite
  else if d.rateBias.all (fun x => Scalar.abs x ≤ rateBiasLimit)
      ∧ d.accelerationBias.all (fun x => Scalar.abs x ≤ accelerationBiasLimit) then none
  else some .biasOutOfRange

/-- Takes over data from elsewhere.  Data that are not believed leave the old ones,
which are no longer valid. -/
def load (c : Calibration α β) (d : CalibrationData α) : Calibration α β :=
  match objection? d with
  | some _ => { c with data := { c.data with valid := false } }
  | none =>
    { c with data := { d with
        gravity := .directionOr β .down d.gravity
        forward := .directionOr β .ahead d.forward } }

/-- Sets the forward direction by hand.  A vector without direction stands for the
first axis. -/
def setForward (c : Calibration α β) (v : Vector3 α) : Calibration α β :=
  let v := if v.isFinite then v else .ahead
  { c with data := { c.data with forward := .directionOr β .ahead v } }

/-- The acceleration of a sample in the forward direction. -/
def forwardAcceleration (c : Calibration α β) (s : Sample α) : α :=
  s.acceleration.dot c.data.forward

end Calibration

end

end ModelCar
