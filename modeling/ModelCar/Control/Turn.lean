import ModelCar.Control.Basic

/-!
# A turn of the control loop

One turn reads the inputs, serves the requests, notes a finished calibration, chooses a
command, stabilizes it, lets the failsafe overrule it, drives the actuators and
reports.
-/

namespace ModelCar.Control

/-- The time since the last turn, or the period at the first one. -/
def elapsed (c : Control) (now : Millis) : Millis :=
  match c.lastTurn with
  | some last => now - last
  | none => c.settings.period

/-- Reads the inputs. -/
def sense (c : Control) (s : Surroundings) : Control × List Effect :=
  ({ c with
      lastTurn := some s.now
      radio := c.radio.update s.now s.radio
      wireless := c.wireless.update s.now s.wireless
      inertial := c.inertial.update s.now s.sample },
    if (c.inertial.due s.now).isSome then [.readSensor] else [])

/-- Notes that a calibration has ended since the last turn, and stores what it has
found. -/
def noteCalibration (c : Control) (fault : Option Fault) : Control × List Effect :=
  let status := c.inertial.calibration.status
  if status = c.calibrationSeen then (c, [])
  else
    let c := { c with calibrationSeen := status }
    match status with
    | .done =>
      let mode := c.inertial.calibration.mode
      let c := { c with inertial := c.inertial.align }
      (c, .note (.calibrationDone mode)
        :: c.storeCalibration fault .calibrationStored .calibrationNotStored)
    | .failed => (c, [.note .calibrationFailed])
    | _ => (c, [])

/-- The command to be followed: the one of the radio, or else a wireless one, or else
the last one. -/
def choice (c : Control) : Controls :=
  (c.radio.command <|> c.wireless.command).getD c.commanded

/-- Chooses the command to be followed. -/
def choose (c : Control) : Control :=
  { c with commanded := c.choice }

/-- What the inertial unit says about the motion of the car can be trusted. -/
def trusts (c : Control) : Bool :=
  c.inertial.enabled && c.inertial.calibration.data.valid

/-- The target of the actuators after a time, and the stabilizer after it. -/
def stabilize (c : Control) (elapsed : Millis) : Controls × Control :=
  let input : Stabilizer.Input Float32 :=
    { throttle := c.commanded.throttle
      steering := c.commanded.steering
      yawRate := c.inertial.yawRate
      pitch := c.inertial.attitude.degrees.pitch }
  let ((throttle, steering), stabilizer) := c.stabilizer.step c.trusts input elapsed
  (.clamped throttle steering, { c with stabilizer })

/-- Telling about a new state of the failsafe. -/
def failsafeEffects (before after : Failsafe.State) : List Effect :=
  if after = before then []
  else
    .note (.failsafe after)
      :: if (before = .active) = (after = .active) then []
        else [.failsafeChanged (after = .active)]

/-- Lets the failsafe overrule the target, and tells about its state if that is new. -/
def guard (c : Control) (now : Millis) (target : Controls) :
    Controls × Control × List Effect :=
  let failsafe := c.failsafe.update now c.radio.isActive c.wireless.isActive
  let effects := failsafeEffects c.failsafeSeen failsafe.state
  let c := { c with failsafe, failsafeSeen := failsafe.state }
  if failsafe.isActive then
    (.neutral, { c with commanded := .neutral, actuators := c.actuators.stopped },
      effects ++ [.neutral])
  else (target, c, effects)

/-- Drives the actuators towards the target, if it is time to. -/
def drive (c : Control) (now : Millis) (target : Controls) : Control × List Effect :=
  match c.actuators.follow now target c.settings.throttleSpeed c.settings.steeringSpeed with
  | none => (c, [])
  | some actuators =>
    ({ c with actuators }, [.drive actuators.throttle actuators.steering])

/-- Reports, if it is time to. -/
def report (c : Control) (now : Millis) (clients : Nat) : Control × List Effect :=
  let reporter :=
    { c.reporter with
      throttle := c.actuators.throttle
      steering := c.actuators.steering }
  let (report, reporter) := reporter.update now c.linkStatus c.inertial clients
  ({ c with reporter }, (report.map Report.effects).getD [])

/-- The diagnosis of what has been counted in a time. -/
def diagnosis (c : Control) (elapsed : Millis) : Diagnosis where
  rate := c.tally.turns.toNat * 1000 / elapsed.toNat
  meanBusy := c.tally.busy / .ofNat (max c.tally.turns.toNat 1)
  maxBusy := c.tally.maxBusy
  failsafe := c.failsafe.state
  calibration := c.inertial.calibration.status

/-- Counts the turn, and reports on the loop if it is time to. -/
def diagnose (c : Control) (now : Millis) (busy : UInt64) : Control × List Effect :=
  let c := { c with tally := c.tally.count busy }
  let elapsed := now - c.tally.since
  if elapsed < c.settings.diagnosisInterval ∨ elapsed = 0 then (c, [])
  else
    ({ c with tally := { since := now } },
      .note (.diagnosis (c.diagnosis elapsed))
        :: if c.inertial.enabled then [.note (.attitude c.inertial.attitude.degrees)] else [])

/-- The time that a turn took. -/
def busyTime (s : Surroundings) : UInt64 :=
  if s.began ≤ s.ended then s.ended - s.began else 0

/-- One turn of the control loop. -/
def turn (c : Control) (s : Surroundings) : Control × List Effect :=
  let elapsed := c.elapsed s.now
  let (c, sensed) := c.sense s
  let (c, served) := c.serve s.requests
  let (c, noted) := c.noteCalibration s.fault
  let (target, c) := c.choose.stabilize elapsed
  let (target, c, guarded) := c.guard s.now target
  let (c, driven) := c.drive s.now target
  let (c, reported) := c.report s.now s.clients
  let (c, diagnosed) := c.diagnose s.now (busyTime s)
  (c, sensed ++ served ++ noted ++ guarded ++ driven ++ reported ++ diagnosed)

end ModelCar.Control
