import ModelCar.Bench.Basic
import ModelCar.Drive.Source

/-!
# Parts on a bench

The inputs and the reporter of a car on a bench of their own, without the control loop
that joins them.  Each part is updated at a time that it is told.
-/

namespace ModelCar

/-- The inputs and the reporter of a car on a bench. -/
structure Parts where
  radio : Radio
  wireless : Wireless
  inertial : Inertial
  reporter : Reporter
  bench : Bench
  /-- The wireless command that nobody has taken yet. -/
  command : Option Controls := none
  journal : List Entry := []

namespace Parts

/-- Polls the radio receiver. -/
def updateRadio (p : Parts) (now : Millis) : Parts :=
  { p with radio := p.radio.update now p.bench.radio }

/-- Takes the wireless command. -/
def updateWireless (p : Parts) (now : Millis) : Parts :=
  { p with wireless := p.wireless.update now p.command, command := none }

/-- Reads the motion sensor if it is time to. -/
def updateInertial (p : Parts) (now : Millis) : Parts :=
  { p with
    inertial := p.inertial.update now p.bench.sample
    bench := if (p.inertial.due now).isSome then p.bench.perform .readSensor else p.bench }

/-- Updates the motion sensor a number of times, beginning now. -/
def runInertial (p : Parts) (now step : Millis) : Nat → Parts
  | 0 => p
  | n + 1 => (p.updateInertial now).runInertial (now + step) step n

/-- The state of the links, as reports show it. -/
def linkStatus (p : Parts) (failsafeActive : Bool) : Link.Status :=
  ⟨p.radio.isActive, p.wireless.isActive, failsafeActive⟩

/-- The snapshot of the parts at present. -/
def snapshot (p : Parts) (failsafeActive : Bool) : Snapshot :=
  p.reporter.snapshot (p.linkStatus failsafeActive) p.inertial

/-- Reports if it is time to. -/
def updateReporter (p : Parts) (now : Millis) (failsafeActive : Bool) : Parts :=
  let (report, reporter) :=
    p.reporter.update now (p.linkStatus failsafeActive) p.inertial p.bench.clients
  let effects := (report.map Report.effects).getD []
  { p with reporter, bench := effects.foldl Bench.perform p.bench }

/-- Sets the filter of the yaw rate. -/
def setFilter (p : Parts) (cutoff rate : Float32) : Parts :=
  let lowPass := p.inertial.lowPass.configure cutoff rate
  { p with
    inertial := { p.inertial with lowPass }
    journal :=
      if lowPass.isConfigured then p.journal
      else p.journal ++ [(Notice.filterRefused cutoff rate).entry] }

/-- The parts with nothing recorded. -/
def cleared (p : Parts) : Parts :=
  { p with bench := { p.bench with record := {} }, journal := [] }

end Parts

end ModelCar
