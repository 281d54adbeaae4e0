import ModelCar.Bench.Ride

/-!
# The simulation

Runs a ride on the bench and prints the snapshots that a client receives.
-/

open ModelCar

/-- Prints the snapshots of a ride. -/
def main : IO UInt32 := do
  match Ride.finish with
  | .ok rig =>
    for text in rig.bench.record.texts do
      IO.println text
    pure 0
  | .error fault =>
    IO.eprintln ("init failed: " ++ fault.startMessage)
    pure 1
