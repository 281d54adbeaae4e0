import ModelCar.Report.Snapshot

/-!
# The reporter

At its own pace the reporter sends a numbered telemetry frame over the link, and a
snapshot to the wireless clients if there are any.
-/

namespace ModelCar

/-- What is sent at one time. -/
structure Report where
  frame : Link.Telemetry
  snapshot : Option Snapshot
deriving DecidableEq

/-- The reporter with the values applied to the actuators and the number of its next
frame. -/
structure Reporter where
  pace : Pace
  throttle : Float32 := 0.0
  steering : Float32 := 0.0
  next : UInt16 := 0
deriving DecidableEq

namespace Reporter

/-- The snapshot of the car at present. -/
def snapshot (r : Reporter) (status : Link.Status) (i : Inertial) : Snapshot :=
  ⟨status, Snapshot.Motion.of? i, r.throttle, r.steering⟩

/-- Reports if it is time to. -/
def update (r : Reporter) (now : Millis) (status : Link.Status) (i : Inertial)
    (clients : Nat) : Option Report × Reporter :=
  match r.pace.due now with
  | none => (none, r)
  | some _ =>
    (some {
        frame := .ofSample r.next status i.sample
        snapshot := if clients = 0 then none else some (r.snapshot status i) },
      { r with pace := r.pace.restart now, next := r.next + 1 })

end Reporter

end ModelCar
