import ModelCar.Bench.Rig

/-!
# A ride

A ride of five seconds on the bench: the car calibrates at rest, is driven by radio,
and loses the signal, so that the failsafe takes over.  `Ride.finish` is the rig after it,
with the snapshots that a client has received meanwhile.
-/

namespace ModelCar.Ride

/-- The time of the start. -/
def startTime : Millis := 1000

/-- The time at which the radio begins to give commands. -/
def driveTime : Millis := 3500

/-- The time at which the radio loses its signal. -/
def lossTime : Millis := 5500

/-- The time of the end. -/
def endTime : Millis := 6200

/-- What the radio receives. -/
def radioAt (now : Millis) : Option Controls :=
  if driveTime ≤ now ∧ now < lossTime then some (.clamped 0.4 0.25) else none

/-- What the motion sensor measures: a car at rest has biases only, and a steered car
turns. -/
def sampleAt (steering : Float32) : Sample Float32 :=
  ⟨⟨0.01, -0.02, 1.0⟩, ⟨0.4, -0.3, 0.8 + steering * 60.0⟩⟩

/-- The rig at the start of the ride. -/
def rig : Rig :=
  .assemble {} { now := startTime, clients := 1 }

/-- One period of the ride. -/
def step (r : Rig) : Rig :=
  let bench := { r.bench with
    radio := radioAt r.bench.now
    sample := some (sampleAt r.control.actuators.steering) }
  ({ r with bench }).period

/-- The ride until its end, for a number of periods at most. -/
def ride : Nat → Rig → Rig
  | 0, r => r
  | n + 1, r => if r.bench.now < endTime then ride n (step r) else r

/-- The rig after the ride, unless its control loop did not start. -/
def finish : Except Fault Rig :=
  match rig.start with
  | (.ok (), r) => .ok (ride (endTime - startTime).toNat r)
  | (.error f, _) => .error f

end ModelCar.Ride
