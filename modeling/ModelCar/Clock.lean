/-!
# The clock

The car tells the time in milliseconds modulo `2 ^ 32`; the time that has passed
between two readings is their difference modulo `2 ^ 32`.  A `Pace` thins out a loop:
polled at every turn, it fires when its interval has passed since it last fired.
-/

namespace ModelCar

/-- A time in milliseconds, modulo `2 ^ 32`. -/
abbrev Millis : Type := UInt32

/-- Fires at most once in an interval. -/
structure Pace where
  interval : Millis
  /-- The time of the last firing or restart. -/
  last : Option Millis := none
deriving DecidableEq, Repr, Inhabited

namespace Pace

/-- The time since the last firing, if the pace fires now.  The first firing comes at
once and counts as one interval. -/
def due (p : Pace) (now : Millis) : Option Millis :=
  match p.last with
  | none => some p.interval
  | some last => if now - last < p.interval then none else some (now - last)

/-- Counts the next interval from now on. -/
def restart (p : Pace) (now : Millis) : Pace :=
  { p with last := some now }

/-- Fires if it is due. -/
def poll (p : Pace) (now : Millis) : Option Millis × Pace :=
  match p.due now with
  | some elapsed => (some elapsed, p.restart now)
  | none => (none, p)

end Pace

end ModelCar
