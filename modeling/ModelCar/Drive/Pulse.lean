import ModelCar.Clock
import ModelCar.Number.Binary

/-!
# Pulses

Servos and receivers speak in pulses: `1500` microseconds are the rest position,
`1000` and `2000` the ends.  A `PulseInput` measures the pulses of one receiver
channel from the edges of its signal.
-/

namespace ModelCar

/-- The width of the pulse for a control position, in microseconds. -/
def pulseWidth (x : Float32) : UInt16 :=
  .ofNat (nearestInt 0 65535 (1500.0 + Scalar.clampUnit x * 500.0)).toNat

/-- The control position of a pulse. -/
def pulsePosition (width : UInt16) : Float32 :=
  Scalar.clampUnit ((Float32.ofNat width.toNat - 1500.0) / 500.0)

/-- A measured pulse. -/
structure Pulse where
  /-- The width in microseconds. -/
  width : UInt32
  /-- The time of its end. -/
  ended : Millis
deriving DecidableEq, Repr, Inhabited

/-- The pulses of one channel of a receiver.  Edges are timed by a counter of
microseconds, of which the lower half is kept. -/
structure PulseInput where
  /-- The pin that the channel is connected to. -/
  pin : UInt32 := 0
  /-- The time of the last rising edge. -/
  rise : UInt32 := 0
  /-- The last pulse whose width makes sense. -/
  last : Option Pulse := none
deriving DecidableEq, Repr, Inhabited

namespace PulseInput

/-- The shortest pulse that makes sense. -/
def shortest : UInt32 := 800

/-- The longest pulse that makes sense. -/
def longest : UInt32 := 2200

/-- The age in milliseconds up to which a pulse counts. -/
def lifetime : Millis := 250

/-- The signal rises or falls at a time in microseconds. -/
def edge (p : PulseInput) (rising : Bool) (time : UInt64) : PulseInput :=
  if rising then { p with rise := time.toUInt32 }
  else
    let width := time.toUInt32 - p.rise
    if shortest ≤ width ∧ width ≤ longest then
      { p with last := some ⟨width, (time / 1000).toUInt32⟩ }
    else p

/-- The width of the last pulse, if it is young enough. -/
def widthAt (p : PulseInput) (now : Millis) : Option UInt16 :=
  match p.last with
  | none => none
  | some pulse =>
    if lifetime < now - pulse.ended then none else some pulse.width.toUInt16

end PulseInput

end ModelCar
