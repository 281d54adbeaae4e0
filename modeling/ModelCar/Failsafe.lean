import ModelCar.Clock

/-!
# The failsafe

Without an active source of commands for as long as its timeout, the failsafe becomes
active.  It takes two updates with an active source to leave it again: the first one
leads to recovery.
-/

namespace ModelCar

/-- The states of the failsafe. -/
inductive Failsafe.State where
  | inactive
  | active
  | recovering
deriving DecidableEq, Repr, Inhabited

/-- The name of a state. -/
def Failsafe.State.name : Failsafe.State → String
  | inactive => "inactive"
  | active => "active"
  | recovering => "recovering"

/-- The failsafe of the car. -/
structure Failsafe where
  timeout : Millis := 250
  state : Failsafe.State := .inactive
  /-- The time of the last update with an active source. -/
  last : Option Millis := none
deriving DecidableEq, Repr, Inhabited

namespace Failsafe

/-- The outputs have to be neutral. -/
def isActive (f : Failsafe) : Bool :=
  f.state = .active

/-- The state after an update with an active source. -/
def State.recover : State → State
  | active => recovering
  | recovering => inactive
  | inactive => inactive

/-- The time without an active source.  Before there was one it counts from time
zero. -/
def silence (f : Failsafe) (now : Millis) : Millis :=
  now - f.last.getD 0

/-- One step of the failsafe. -/
def update (f : Failsafe) (now : Millis) (radioActive wirelessActive : Bool) : Failsafe :=
  if radioActive || wirelessActive then
    { f with state := f.state.recover, last := some now }
  else if f.timeout ≤ f.silence now then
    { f with state := .active }
  else f

/-- The time since the last update with an active source, zero if there was none. -/
def sinceActive (f : Failsafe) (now : Millis) : Millis :=
  match f.last with
  | some last => now - last
  | none => 0

/-- Changes the timeout, and nothing else. -/
def setTimeout (f : Failsafe) (timeout : Millis) : Failsafe :=
  { f with timeout }

/-- Forgets everything but the timeout. -/
def reset (f : Failsafe) : Failsafe :=
  { timeout := f.timeout }

end Failsafe

end ModelCar
