import ModelCar.Control.Basic

/-!
# Starting the control loop

Without actuators or failsafe the control loop does not start.  Without a radio
receiver or a motion sensor it starts and does without them.  What was stored is used
as far as it can be believed, and a calibration at rest begins.
-/

namespace ModelCar.Control

/-- Switches the radio receiver on, if it works. -/
def startRadio (c : Control) (fault : Option Fault) : Control × List Effect :=
  match fault with
  | none => ({ c with radio := c.radio.enable true }, [])
  | some f => (c, [.note (.radioMissing f)])

/-- Takes over a stored calibration. -/
def loadCalibration (c : Control) (stored : Option (CalibrationData Float32)) :
    Control × List Effect :=
  match stored with
  | none => (c, [.note .noStoredCalibration])
  | some data =>
    let c := c.withCalibration (c.inertial.calibration.load data)
    match Calibration.objection? data with
    | none =>
      ({ c with inertial := c.inertial.align }, [.note (.calibrationLoaded data.valid)])
    | some reason => (c, [.note (.calibrationRefused reason)])

/-- Switches the motion sensor on, if it works. -/
def startInertial (c : Control) (s : Startup) : Control × List Effect :=
  match s.sensorFault with
  | none =>
    loadCalibration { c with inertial := { c.inertial with enabled := true } } s.calibration
  | some f => (c, [.note (.sensorMissing f s.identity)])

/-- The tuning to start with. -/
def startTuning (stored : Option (Tuning Float32)) : Tuning Float32 × Notice :=
  match stored.map Tuning.clamped with
  | none => (.standard, .standardTuning)
  | some t =>
    if t.IsValid then (t, .tuningLoaded (.ofCode t.mode))
    else (.standard, .storedTuningInvalid)

/-- Begins the calibration at the start, if there is a motion sensor. -/
def startCalibration (c : Control) : Control × List Effect :=
  if c.inertial.enabled then
    let samples := c.settings.startSamples
    match c.inertial.calibration.start .full samples.toNat with
    | .ok calibration => (c.withCalibration calibration, [.note (.startCalibration samples)])
    | .error _ => (c, [])
  else (c, [])

/-- Begins to keep time. -/
def startClock (c : Control) (now : Millis) : Control × List Effect :=
  ({ c with
      calibrationSeen := c.inertial.calibration.status
      actuators := { c.actuators with pace := c.actuators.pace.restart now }
      tally := { since := now }
      started := true },
    [.neutral,
      .note (.ready c.settings.rate c.radio.enabled c.inertial.enabled)])

/-- The start with working actuators and failsafe. -/
def launch (c : Control) (s : Startup) : Control × List Effect :=
  let (c, radio) := c.startRadio s.radioFault
  let (c, inertial) := c.startInertial s
  let (tuning, notice) := startTuning s.tuning
  let (c, filters) := c.use tuning
  let (c, calibration) := c.startCalibration
  let (c, clock) := c.startClock s.now
  (c, radio ++ inertial ++ .note notice :: filters ++ calibration ++ clock)

/-- Starts the control loop, unless it has been started before. -/
def start (c : Control) (s : Startup) : Except Fault Unit × Control × List Effect :=
  if c.started then (.ok (), c, [])
  else
    match s.outputFault, s.failsafeFault with
    | some f, _ => (.error f, c, [.note (.outputFailed f)])
    | none, some f => (.error f, c, [.note (.failsafeFailed f)])
    | none, none => (.ok (), c.launch s)

end ModelCar.Control
