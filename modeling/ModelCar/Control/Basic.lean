import ModelCar.Control.Effect
import ModelCar.Control.Settings
import ModelCar.Drive.Actuators
import ModelCar.Drive.Source
import ModelCar.Stabilization.Stabilizer

/-!
# The control of the car

The state of the control loop, and the operations that its clients ask for: starting
calibrations, setting the forward direction, and changing the tuning.
-/

namespace ModelCar

/-- What is counted from one diagnosis to the next. -/
structure Tally where
  since : Millis := 0
  turns : UInt32 := 0
  busy : UInt64 := 0
  maxBusy : UInt64 := 0
deriving DecidableEq, Inhabited

/-- What has been counted, with one more turn. -/
def Tally.count (t : Tally) (busy : UInt64) : Tally :=
  { t with turns := t.turns + 1, busy := t.busy + busy, maxBusy := max t.maxBusy busy }

/-- The state of the control loop. -/
structure Control where
  settings : Settings
  radio : Radio
  wireless : Wireless
  inertial : Inertial
  reporter : Reporter
  failsafe : Failsafe
  stabilizer : Stabilizer Float32
  /-- The command that was last chosen. -/
  commanded : Controls
  actuators : Actuators
  /-- The time of the last turn. -/
  lastTurn : Option Millis
  /-- The calibration status at the last turn. -/
  calibrationSeen : Calibration.Status
  /-- The state of the failsafe that was last told about. -/
  failsafeSeen : Failsafe.State
  tally : Tally
  started : Bool
deriving DecidableEq

namespace Control

/-- The control loop before its start. -/
def ofSettings (s : Settings) : Control where
  settings := s
  radio := { pace := ⟨s.radioInterval, none⟩ }
  wireless := { timeout := s.wirelessTimeout }
  inertial := { pace := ⟨s.inertialInterval, none⟩ }
  reporter := { pace := ⟨s.reportInterval, none⟩ }
  failsafe := { timeout := s.failsafeTimeout }
  stabilizer := .start
  commanded := .neutral
  actuators := { pace := ⟨s.outputInterval, none⟩ }
  lastTurn := none
  calibrationSeen := .idle
  failsafeSeen := .inactive
  tally := {}
  started := false

/-- The tuning in use. -/
def tuning (c : Control) : Tuning Float32 :=
  c.stabilizer.tuning

/-- What the control loop tells about itself. -/
def status (c : Control) : Status where
  calibration := c.inertial.calibration.status
  stage := c.inertial.calibration.stage
  data := c.inertial.calibration.data
  failsafe := c.failsafe.state
  tuning := c.tuning
  throttle := c.actuators.throttle
  steering := c.actuators.steering

/-- The state of the links, as reports show it. -/
def linkStatus (c : Control) : Link.Status :=
  ⟨c.radio.isActive, c.wireless.isActive, c.failsafe.isActive⟩

/-- The same control loop with another calibration. -/
def withCalibration (c : Control) (calibration : Calibration Float32 Float) : Control :=
  { c with inertial := { c.inertial with calibration } }

/-! ### Requests of clients -/

/-- Uses a tuning for filters and stabilization. -/
def use (c : Control) (t : Tuning Float32) : Control × List Effect :=
  let inertial := c.inertial.retune t
  ({ c with inertial, stabilizer := c.stabilizer.retune t },
    if inertial.lowPass.isConfigured then []
    else [.note (.filterRefused t.cutoff t.sampleRate)])

/-- Changes the tuning to the nearest one with all fields in range, and stores it if
that is wanted. -/
def retune (c : Control) (t : Tuning Float32) (keep : Bool) (fault : Option Fault) :
    Except Tuning.Failure (Tuning Float32) × Control × List Effect :=
  let t := t.clamped
  if t.IsValid then
    let (c, effects) := c.use t
    if keep then
      let stored := effects ++ [.storeTuning t fault]
      match fault with
      | none => (.ok t, c, stored ++ [.note .tuningStored])
      | some f => (.error (.notStored f.message), c, stored ++ [.note (.tuningNotStored f)])
    else (.ok t, c, effects)
  else (.error .invalid, c, [.note .tuningInvalid])

/-- The effects of storing the calibration, with notices for success and failure. -/
def storeCalibration (c : Control) (fault : Option Fault) (success : Notice)
    (failure : Fault → Notice) : List Effect :=
  [.storeCalibration c.inertial.calibration.data fault,
    .note (match fault with
      | none => success
      | some f => failure f)]

/-- Sets the forward direction by hand and stores it. -/
def setForward (c : Control) (v : Vector3 Float32) (fault : Option Fault) :
    Bool × Control × List Effect :=
  let c := c.withCalibration (c.inertial.calibration.setForward v)
  let c := { c with inertial := c.inertial.align }
  (fault.isNone, c, c.storeCalibration fault .forwardStored .forwardNotStored)

/-- Starts the calibration of the forward direction, unless another one is running. -/
def calibrateForward (c : Control) :
    Except Calibration.Refusal Unit × Control × List Effect :=
  if c.inertial.calibration.status = .collecting then (.error .busy, c, [])
  else
    let samples := c.settings.forwardSamples
    match c.inertial.calibration.start .forward samples.toNat with
    | .ok calibration =>
      (.ok (), c.withCalibration calibration, [.note (.forwardStarted samples)])
    | .error reason => (.error reason, c, [.note (.forwardRefused reason)])

/-- Starts a calibration at rest. -/
def calibrate (c : Control) (full : Bool) : Control × List Effect :=
  if c.inertial.enabled then
    let (mode, samples) :=
      if full then (Calibration.Mode.full, c.settings.fullSamples)
      else (Calibration.Mode.gyro, c.settings.gyroSamples)
    match c.inertial.calibration.start mode samples.toNat with
    | .ok calibration =>
      (c.withCalibration calibration, [.note (.calibrationStarted mode samples)])
    | .error _ => (c, [])
  else (c, [.note .calibrationIgnored])

/-- Does what a request asks for. -/
def handle (c : Control) (d : Delivery) : Control × List Effect :=
  match d.request with
  | .calibrate full => c.calibrate full
  | .calibrateForward =>
    let (result, c, effects) := c.calibrateForward
    (c, effects ++ [.answer d.ticket (.calibrateForward result)])
  | .setForward direction =>
    let (kept, c, effects) := c.setForward direction d.fault
    (c, effects ++ [.answer d.ticket (.setForward kept)])
  | .retune tuning keep =>
    let (result, c, effects) := c.retune tuning keep d.fault
    (c, effects ++ [.answer d.ticket (.retune result)])
  | .query => (c, [.answer d.ticket (.status c.status)])

/-- Does what a list of requests asks for, one after the other. -/
def serve (c : Control) : List Delivery → Control × List Effect
  | [] => (c, [])
  | d :: rest =>
    let (c, effects) := c.handle d
    let (c, more) := c.serve rest
    (c, effects ++ more)

end Control

end ModelCar
