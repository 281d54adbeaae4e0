/-!
# Faults of devices

What goes wrong with the devices that the control loop works with, and how that is
worded.
-/

namespace ModelCar

/-- A fault of a device, with a detail that the device gives. -/
inductive Fault where
  | output (detail : String)
  | radio (detail : String)
  | sensor (detail : String)
  | failsafe (detail : String)
  | storage (detail : String)
  | task (detail : String)
deriving DecidableEq, Repr

namespace Fault

/-- The wording of a fault. -/
def message : Fault → String
  | output detail => "PWM init failed: " ++ detail
  | radio detail => "RC input init failed: " ++ detail
  | sensor detail => "IMU init failed: " ++ detail
  | failsafe detail => "failsafe init failed: " ++ detail
  | storage detail => "storage error: " ++ detail
  | task detail => "task error: " ++ detail

/-- The wording of a fault that keeps the control loop from starting. -/
def startMessage (f : Fault) : String :=
  "vehicle control init failed: " ++ f.message

end Fault

end ModelCar
