import ModelCar.Control.Notice
import ModelCar.Control.Request
import ModelCar.Report.Reporter

/-!
# Surroundings and effects

What the control loop meets at its start and at each of its turns, and what it does to
the world around it.  With these given, the loop is a function.
-/

namespace ModelCar

/-- A request, with the fault that storing something on its behalf runs into. -/
structure Delivery extends Ticketed where
  fault : Option Fault
deriving DecidableEq

/-- What the control loop meets at one turn. -/
structure Surroundings where
  now : Millis
  /-- The command that a poll of the radio receiver finds. -/
  radio : Option Controls
  /-- The wireless command that has come since the last turn. -/
  wireless : Option Controls
  /-- The sample that a reading of the motion sensor finds. -/
  sample : Option (Sample Float32)
  requests : List Delivery
  /-- The fault that storing a finished calibration runs into. -/
  fault : Option Fault
  /-- The number of wireless clients. -/
  clients : Nat
  /-- The times of the beginning and the end of the turn, in microseconds. -/
  began : UInt64
  ended : UInt64

/-- What the control loop meets when it starts. -/
structure Startup where
  now : Millis
  outputFault : Option Fault
  failsafeFault : Option Fault
  radioFault : Option Fault
  sensorFault : Option Fault
  /-- What the motion sensor says about its make. -/
  identity : Option UInt8
  /-- The stored calibration. -/
  calibration : Option (CalibrationData Float32)
  /-- The stored tuning. -/
  tuning : Option (Tuning Float32)

/-- Something that the control loop does. -/
inductive Effect where
  /-- Reads the motion sensor. -/
  | readSensor
  /-- Gives new values to the actuators. -/
  | drive (throttle steering : Float32)
  /-- Brings the actuators to rest. -/
  | neutral
  /-- Tells that the failsafe has become active or is no longer so. -/
  | failsafeChanged (active : Bool)
  /-- Sends a frame over the link. -/
  | sendFrame (frame : Link.Telemetry)
  /-- Sends a snapshot to the wireless clients. -/
  | sendSnapshot (snapshot : Snapshot)
  /-- Stores calibration data, if no fault prevents it. -/
  | storeCalibration (data : CalibrationData Float32) (fault : Option Fault)
  /-- Stores a tuning, if no fault prevents it. -/
  | storeTuning (tuning : Tuning Float32) (fault : Option Fault)
  /-- Answers the request with a ticket. -/
  | answer (ticket : Nat) (answer : Answer)
  /-- Reports in the journal. -/
  | note (notice : Notice)

/-- Sending what is reported. -/
def Report.effects (r : Report) : List Effect :=
  .sendFrame r.frame :: (r.snapshot.map Effect.sendSnapshot).toList

end ModelCar
