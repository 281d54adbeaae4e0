import ModelCar.Clock
import ModelCar.Drive.Controls

/-!
# Sources of commands

Commands come from the radio receiver, which is polled, and from wireless clients,
whose last command counts for a limited time.
-/

namespace ModelCar

/-- The radio receiver with the command that its last poll found. -/
structure Radio where
  pace : Pace
  enabled : Bool := false
  command : Option Controls := none
deriving DecidableEq

namespace Radio

/-- Switches the receiver on or off; off, it has no command. -/
def enable (r : Radio) (on : Bool) : Radio :=
  { r with enabled := on, command := if on then r.command else none }

/-- Polls the receiver if it is time to; a reading without a command ends the last
one. -/
def update (r : Radio) (now : Millis) (reading : Option Controls) : Radio :=
  if r.enabled then
    match r.pace.due now with
    | none => r
    | some _ => { r with pace := r.pace.restart now, command := reading }
  else r

/-- The last poll found a command. -/
def isActive (r : Radio) : Bool :=
  r.command.isSome

end Radio

/-- The last command of the wireless clients and the time when it came. -/
structure Wireless where
  timeout : Millis
  last : Option (Controls × Millis) := none
  /-- The time of the last update. -/
  now : Millis := 0
deriving DecidableEq

namespace Wireless

/-- Takes in a command that has come since the last update. -/
def update (w : Wireless) (now : Millis) (received : Option Controls) : Wireless :=
  match received with
  | some command => { w with last := some (command, now), now := now }
  | none => { w with now := now }

/-- The last command counts at a given time. -/
def isActiveAt (w : Wireless) (now : Millis) : Bool :=
  match w.last with
  | some (_, time) => now - time < w.timeout
  | none => false

/-- The last command counted at the last update. -/
def isActive (w : Wireless) : Bool :=
  w.isActiveAt w.now

/-- The last command, as long as it counts. -/
def command (w : Wireless) : Option Controls :=
  if w.isActive then w.last.map (·.1) else none

end Wireless

end ModelCar
