import ModelCar.Control.Fault
import ModelCar.Failsafe
import ModelCar.Journal
import ModelCar.Motion.Attitude
import ModelCar.Motion.Calibration
import ModelCar.Number.Layout
import ModelCar.Stabilization.Tuning

/-!
# Notices

What the control loop reports in the journal, and how that is worded.
-/

namespace ModelCar

/-- How the loop has been running since the last diagnosis. -/
structure Diagnosis where
  /-- Turns of the loop per second. -/
  rate : Nat
  /-- The mean time that a turn took, in microseconds. -/
  meanBusy : UInt64
  /-- The longest time that a turn took, in microseconds. -/
  maxBusy : UInt64
  failsafe : Failsafe.State
  calibration : Calibration.Status
deriving DecidableEq

/-- Something that the control loop reports. -/
inductive Notice where
  | outputFailed (fault : Fault)
  | failsafeFailed (fault : Fault)
  | radioMissing (fault : Fault)
  | sensorMissing (fault : Fault) (identity : Option UInt8)
  | noStoredCalibration
  | calibrationLoaded (valid : Bool)
  | calibrationRefused (reason : Calibration.Refusal)
  | tuningLoaded (mode : DriveMode)
  | storedTuningInvalid
  | standardTuning
  | startCalibration (samples : UInt32)
  | ready (rate : Nat) (radio inertial : Bool)
  | failsafe (state : Failsafe.State)
  | calibrationIgnored
  | calibrationStarted (mode : Calibration.Mode) (samples : UInt32)
  | forwardStarted (samples : UInt32)
  | forwardRefused (reason : Calibration.Refusal)
  | forwardStored
  | forwardNotStored (fault : Fault)
  | calibrationDone (mode : Calibration.Mode)
  | calibrationStored
  | calibrationNotStored (fault : Fault)
  | calibrationFailed
  | tuningInvalid
  | tuningStored
  | tuningNotStored (fault : Fault)
  | filterRefused (cutoff rate : Float32)
  | diagnosis (diagnosis : Diagnosis)
  | attitude (angles : Angles)
deriving DecidableEq

namespace Notice

/-- A truth value in the journal. -/
def truth (b : Bool) : String :=
  if b then "true" else "false"

/-- A natural number in the journal. -/
def number (n : Nat) : String :=
  String.ofList (Numeral.digits n)

/-- A byte in the journal, as two upper-case hexadecimal digits. -/
def byte (b : UInt8) : String :=
  let digit (n : Nat) : Char :=
    if n < 10 then Char.ofNat ('0'.toNat + n) else Char.ofNat ('A'.toNat + (n - 10))
  String.ofList [digit (b.toNat / 16), digit (b.toNat % 16)]

/-- The line of a notice in the journal. -/
def entry : Notice → Entry
  | outputFailed fault => .error ("Failed to initialize PWM: " ++ fault.message)
  | failsafeFailed fault => .error ("Failed to initialize failsafe: " ++ fault.message)
  | radioMissing fault =>
    .warn ("RC input init failed (" ++ fault.message ++ "), continuing without RC-in")
  | sensorMissing fault (some identity) =>
    .warn ("IMU init failed (" ++ fault.message ++ ", WHO_AM_I=0x" ++ byte identity
      ++ "), continuing without IMU")
  | sensorMissing fault none =>
    .warn ("IMU init failed (" ++ fault.message ++ "), continuing without IMU")
  | noStoredCalibration => .info "No saved IMU calibration, will auto-calibrate at start"
  | calibrationLoaded valid => .info ("IMU calibration loaded (valid=" ++ truth valid ++ ")")
  | calibrationRefused reason => .warn ("Stored IMU calibration rejected: " ++ reason.message)
  | tuningLoaded mode => .info ("Stabilization config loaded (mode " ++ mode.name ++ ")")
  | storedTuningInvalid => .warn "Stored stabilization config invalid, using defaults"
  | standardTuning => .info "Using default stabilization config"
  | startCalibration samples =>
    .info ("IMU auto-calibration started (full, " ++ number samples.toNat ++ " samples)")
  | ready rate radio inertial =>
    .info ("Vehicle control ready (" ++ number rate ++ " Hz loop, rc=" ++ truth radio
      ++ ", imu=" ++ truth inertial ++ ")")
  | failsafe .active => .warn "Failsafe ACTIVE, outputs forced to neutral"
  | failsafe .recovering => .info "Failsafe recovering"
  | failsafe .inactive => .info "Failsafe cleared"
  | calibrationIgnored => .warn "Calibration request ignored, IMU unavailable"
  | calibrationStarted mode samples =>
    .info ("Calibration stage 1 started (" ++ mode.name ++ ", " ++ number samples.toNat
      ++ " samples)")
  | forwardStarted samples =>
    .info ("Forward calibration started (" ++ number samples.toNat ++ " samples)")
  | forwardRefused reason => .warn ("Forward calibration rejected: " ++ reason.message)
  | forwardStored => .info "Forward direction set and saved"
  | forwardNotStored fault =>
    .warn ("Forward direction set but not saved: " ++ fault.message)
  | calibrationDone mode => .info ("IMU calibration done (" ++ mode.name ++ ")")
  | calibrationStored => .info "Calibration saved"
  | calibrationNotStored fault => .warn ("Calibration save failed: " ++ fault.message)
  | calibrationFailed => .warn "IMU calibration FAILED (device moved?)"
  | tuningInvalid => .error "Invalid stabilization config"
  | tuningStored => .info "Stabilization config saved"
  | tuningNotStored fault => .warn ("Failed to save stabilization config: " ++ fault.message)
  | filterRefused cutoff rate =>
    .warn ("LPF params rejected (cutoff " ++ Layout.plain.text cutoff ++ " Hz, rate "
      ++ Layout.plain.text rate ++ " Hz), passthrough")
  | diagnosis d =>
    .info ("DIAG: loop " ++ number d.rate ++ " Hz, avg " ++ number d.meanBusy.toNat
      ++ " us, max " ++ number d.maxBusy.toNat ++ " us, failsafe " ++ d.failsafe.name
      ++ ", calib " ++ d.calibration.name)
  | attitude a =>
    .info ("DIAG: pitch " ++ fixed 1 a.pitch ++ " roll " ++ fixed 1 a.roll ++ " yaw "
      ++ fixed 1 a.yaw ++ " deg")

end Notice

end ModelCar
