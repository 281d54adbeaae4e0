import ModelCar.Control.Effect

/-!
# The bench

A bench stands in for the devices of the car: its clock is moved by hand, its inputs
are set, it keeps what is stored, records what is put out, and can be told to fail.
-/

namespace ModelCar

/-- Values given to the actuators, and when. -/
structure Bench.Output where
  time : Millis
  throttle : Float32
  steering : Float32
deriving DecidableEq

/-- What a bench has recorded. -/
structure Bench.Record where
  outputs : List Bench.Output := []
  failsafeEvents : List Bool := []
  frames : List Link.Telemetry := []
  texts : List String := []

/-- A simulated car. -/
structure Bench where
  now : Millis
  /-- What a poll of the radio receiver finds. -/
  radio : Option Controls := none
  /-- What a reading of the motion sensor finds. -/
  sample : Option (Sample Float32) := none
  clients : Nat := 0
  /-- The stored calibration. -/
  calibration : Option (CalibrationData Float32) := none
  /-- The stored tuning. -/
  tuning : Option (Tuning Float32) := none
  outputBroken : Bool := false
  radioBroken : Bool := false
  sensorBroken : Bool := false
  failsafeBroken : Bool := false
  storageBroken : Bool := false
  /-- What the motion sensor says about its make, if it is not the usual. -/
  identity : Option UInt8 := none
  /-- The car has no link, no failsafe light, and a motion sensor without a make. -/
  bare : Bool := false
  /-- How far each reading of the microsecond clock moves it. -/
  drift : UInt64 := 0
  /-- How far the microsecond clock is ahead. -/
  ahead : UInt64 := 0
  readings : Nat := 0
  neutrals : Nat := 0
  record : Bench.Record := {}

namespace Bench

/-- What the usual motion sensor says about its make. -/
def usualIdentity : UInt8 := 0x68

/-- What the motion sensor says about its make. -/
def sensorIdentity (b : Bench) : Option UInt8 :=
  if b.bare then none
  else
    match b.identity with
    | some identity => some identity
    | none => if b.sensorBroken then none else some usualIdentity

/-- A fault, if something is broken. -/
def faultIf (broken : Bool) (fault : Fault) : Option Fault :=
  if broken then some fault else none

/-- The fault that storing something runs into. -/
def storageFault (b : Bench) : Option Fault :=
  faultIf b.storageBroken (.storage "simulated write failure")

/-- The fault of the actuators. -/
def outputFault (b : Bench) : Option Fault :=
  faultIf b.outputBroken (.output "LEDC timer unavailable")

/-- The fault of the motion sensor. -/
def sensorFault (b : Bench) : Option Fault :=
  faultIf b.sensorBroken (.sensor "no response")

/-- What the control loop meets at its start. -/
def startup (b : Bench) : Startup where
  now := b.now
  outputFault := b.outputFault
  failsafeFault := faultIf b.failsafeBroken (.failsafe "no watchdog")
  radioFault := faultIf b.radioBroken (.radio "no receiver")
  sensorFault := b.sensorFault
  identity := b.sensorIdentity
  calibration := b.calibration
  tuning := b.tuning

/-- Lets time pass. -/
def wait (b : Bench) (time : Millis) : Bench :=
  { b with now := b.now + time }

/-- The time in microseconds at the `n`-th of the coming readings of the clock. -/
def micros (b : Bench) (n : UInt64) : UInt64 :=
  b.now.toUInt64 * 1000 + (b.ahead + n * b.drift)

/-- What the control loop meets at a turn. -/
def surroundings (b : Bench) (now : Millis) (m : Mailbox) : Surroundings where
  now := now
  radio := b.radio
  wireless := m.command
  sample := b.sample
  requests := m.inbox.waiting.map fun t => ⟨t, b.storageFault⟩
  fault := b.storageFault
  clients := b.clients
  began := b.micros 1
  ended := b.micros 2

/-- The bench after a turn has read its clock twice. -/
def turned (b : Bench) : Bench :=
  { b with ahead := b.ahead + 2 * b.drift }

/-- Gives values to the actuators. -/
def drive (b : Bench) (throttle steering : Float32) : Bench :=
  { b with record := { b.record with
      outputs := b.record.outputs ++ [⟨b.now, throttle, steering⟩] } }

/-- Takes note of a change of the failsafe. -/
def noteFailsafe (b : Bench) (active : Bool) : Bench :=
  if b.bare then b
  else { b with record := { b.record with
      failsafeEvents := b.record.failsafeEvents ++ [active] } }

/-- Sends a frame over the link. -/
def sendFrame (b : Bench) (frame : Link.Telemetry) : Bench :=
  if b.bare then b
  else { b with record := { b.record with frames := b.record.frames ++ [frame] } }

/-- Sends a text to the wireless clients. -/
def sendText (b : Bench) (text : String) : Bench :=
  { b with record := { b.record with texts := b.record.texts ++ [text] } }

/-- What an effect of the control loop does to the bench. -/
def perform (b : Bench) : Effect → Bench
  | .readSensor => { b with readings := b.readings + 1 }
  | .drive throttle steering => b.drive throttle steering
  | .neutral => { b with neutrals := b.neutrals + 1 }
  | .failsafeChanged active => b.noteFailsafe active
  | .sendFrame frame => b.sendFrame frame
  | .sendSnapshot snapshot => b.sendText snapshot.text
  | .storeCalibration data none => { b with calibration := some data }
  | .storeTuning tuning none => { b with tuning := some tuning }
  | _ => b

end Bench

end ModelCar
