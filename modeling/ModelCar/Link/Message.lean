import ModelCar.Link.Frame
import ModelCar.Number.Binary
import ModelCar.Motion.Sample
import ModelCar.Text.Utf8

/-!
# Messages

What frames carry: commands with throttle and steering as fractions of `32767`,
telemetry with six axes in thousandths, log texts of at most 200 bytes, and two empty
messages.  `Message.read` reads any of them and says how many bytes it used.
-/

namespace ModelCar.Link

/-- The state of the links of the car, one bit each in a frame. -/
structure Status where
  radioOk : Bool
  wirelessOk : Bool
  failsafeActive : Bool
deriving DecidableEq, Repr, Inhabited

namespace Status

/-- The bits of a status. -/
def toBits (s : Status) : UInt8 :=
  (if s.radioOk then 1 else 0) ||| (if s.wirelessOk then 2 else 0)
    ||| (if s.failsafeActive then 4 else 0)

/-- The status with given bits; the upper ones say nothing. -/
def ofBits (bits : UInt8) : Status :=
  ⟨bits &&& 1 ≠ 0, bits &&& 2 ≠ 0, bits &&& 4 ≠ 0⟩

end Status

/-- A report of the car: accelerations in thousandths of `g`, rates in thousandths of
a degree per second. -/
structure Telemetry where
  seq : UInt16
  status : Status
  ax : Int16
  ay : Int16
  az : Int16
  gx : Int16
  gy : Int16
  gz : Int16
deriving DecidableEq, Repr, Inhabited

/-- Thousandths of a quantity, held in the range of 16 bits. -/
def thousandths (x : Float32) : Int16 :=
  .ofInt (nearestInt (-32768) 32767 (x * 1000.0))

namespace Telemetry

/-- The report of a motion sample. -/
def ofSample (seq : UInt16) (status : Status) (s : Sample Float32) : Telemetry where
  seq := seq
  status := status
  ax := thousandths s.acceleration.x
  ay := thousandths s.acceleration.y
  az := thousandths s.acceleration.z
  gx := thousandths s.rate.x
  gy := thousandths s.rate.y
  gz := thousandths s.rate.z

/-- The number of bytes of a report. -/
def size : Nat := 15

/-- The payload of a report. -/
def payload (t : Telemetry) : List UInt8 :=
  bytes16 t.seq ++ t.status.toBits :: bytes16 t.ax.toUInt16 ++ bytes16 t.ay.toUInt16
    ++ bytes16 t.az.toUInt16 ++ bytes16 t.gx.toUInt16 ++ bytes16 t.gy.toUInt16
    ++ bytes16 t.gz.toUInt16

/-- The report of a payload of the right size. -/
def ofPayload? : List UInt8 → Option Telemetry
  | [s0, s1, bits, x0, x1, y0, y1, z0, z1, u0, u1, v0, v1, w0, w1] =>
    some ⟨word16 s0 s1, .ofBits bits, (word16 x0 x1).toInt16, (word16 y0 y1).toInt16,
      (word16 z0 z1).toInt16, (word16 u0 u1).toInt16, (word16 v0 v1).toInt16,
      (word16 w0 w1).toInt16⟩
  | _ => none

end Telemetry

/-- Throttle and steering for the car; numbers outside `-1` to `1` are brought there
when the command is sent. -/
structure Command where
  seq : UInt16
  throttle : Float32
  steering : Float32
deriving DecidableEq, Inhabited

/-- A control position as a fraction of `32767`. -/
def quantize {α : Type} [Scalar α] [Integral α] (x : α) : Int16 :=
  .ofInt (Integral.nearestInt (-32768) 32767 (Scalar.clampUnit x * 32767.0))

/-- The control position of a fraction of `32767`. -/
def dequantize {α : Type} [Scalar α] [Integral α] (q : Int16) : α :=
  Scalar.clampUnit (Integral.ofInt q.toInt / 32767.0)

namespace Command

/-- The number of bytes of a command; the last one is unused. -/
def size : Nat := 7

/-- The payload of a command. -/
def payload (c : Command) : List UInt8 :=
  bytes16 c.seq ++ bytes16 (quantize c.throttle).toUInt16
    ++ bytes16 (quantize c.steering).toUInt16 ++ [0]

/-- The command of a payload of the right size. -/
def ofPayload? : List UInt8 → Option Command
  | [s0, s1, t0, t1, r0, r1, _] =>
    some ⟨word16 s0 s1, dequantize (word16 t0 t1).toInt16,
      dequantize (word16 r0 r1).toInt16⟩
  | _ => none

end Command

/-- The largest payload of a log frame. -/
def logLimit : Nat := 200

/-- The payload of a log text: its bytes, cut between two characters if they are too
many. -/
def logPayload (text : String) : List UInt8 :=
  let bytes := Utf8.encode text.toList
  bytes.take (Utf8.cut logLimit bytes)

/-- A message on the link. -/
inductive Message where
  | command (command : Command)
  | telemetry (report : Telemetry)
  | ping
  | pong
  | log (text : String)
deriving DecidableEq, Inhabited

namespace Message

/-- The kind of the frame of a message. -/
def kind : Message → Kind
  | command _ => .command
  | telemetry _ => .telemetry
  | ping => .ping
  | pong => .pong
  | log _ => .log

/-- The payload of the frame of a message. -/
def payload : Message → List UInt8
  | command c => c.payload
  | telemetry t => t.payload
  | ping => []
  | pong => []
  | log text => logPayload text

/-- Puts the frame of a message at the beginning of a buffer. -/
def encode (buffer : List UInt8) (m : Message) : Except FrameError Nat × List UInt8 :=
  Link.encode buffer m.kind m.payload

/-- Writes the frame of a message to the beginning of a buffer. -/
def write (buffer : List UInt8) (m : Message) : Except FrameError Written :=
  Link.write buffer m.kind m.payload

end Message

/-! ### Reading -/

/-- The payload lengths that a kind allows. -/
def Kind.fits : Kind → Nat → Bool
  | .command, n => n = Command.size
  | .telemetry, n => n = Telemetry.size
  | .ping, n => n = 0
  | .pong, n => n = 0
  | .log, n => n ≤ logLimit

/-- Reads a frame of one kind with a reader for its payload. -/
def readKind {α : Type} (kind : Kind) (read : List UInt8 → Option α)
    (bytes : List UInt8) : Except FrameError α :=
  match Link.payload bytes kind kind.fits with
  | .error e => .error e
  | .ok body =>
    match read body with
    | some a => .ok a
    | none => .error .invalidPayloadLength

/-- Reads a report. -/
def readTelemetry : List UInt8 → Except FrameError Telemetry :=
  readKind .telemetry Telemetry.ofPayload?

/-- Reads a command. -/
def readCommand : List UInt8 → Except FrameError Command :=
  readKind .command Command.ofPayload?

/-- Reads a log text; bytes that are no text come out as replacement characters. -/
def readLog : List UInt8 → Except FrameError String :=
  readKind .log fun body => some (String.ofList (Utf8.decode body))

/-- Reads a ping. -/
def readPing : List UInt8 → Except FrameError Unit :=
  readKind .ping fun _ => some ()

/-- Reads a pong. -/
def readPong : List UInt8 → Except FrameError Unit :=
  readKind .pong fun _ => some ()

/-- Reads a message of one kind. -/
def Message.readAs : Kind → List UInt8 → Except FrameError Message
  | .command, bytes => (readCommand bytes).map .command
  | .telemetry, bytes => (readTelemetry bytes).map .telemetry
  | .ping, bytes => (readPing bytes).map fun _ => .ping
  | .pong, bytes => (readPong bytes).map fun _ => .pong
  | .log, bytes => (readLog bytes).map .log

/-- Reads the message at the beginning of some bytes, and counts the bytes of its
frame. -/
def Message.read (bytes : List UInt8) : Except FrameError (Message × Nat) := do
  let header ← Header.read bytes
  let message ← Message.readAs header.kind bytes
  pure (message, header.frameLength)

theorem Message.pos_of_read {bytes : List UInt8} {m : Message} {n : Nat}
    (h : Message.read bytes = .ok (m, n)) :
  0 < n
  := by
  unfold Message.read at h
  cases hr : Header.read bytes with
  | error e => simp [hr, bind, Except.bind] at h
  | ok header =>
    simp only [hr, bind, Except.bind, pure, Except.pure] at h
    split at h
    · cases h
    · cases h
      simp only [Header.frameLength, headerSize]
      omega

/-! ### Numbering commands -/

/-- Numbers the commands that it writes, modulo `2 ^ 16`. -/
structure Encoder where
  next : UInt16 := 0
deriving DecidableEq, Repr, Inhabited

/-- Puts the frame of the next command at the beginning of a buffer.  A number is used up
only when there is room. -/
def Encoder.encode (e : Encoder) (buffer : List UInt8) (throttle steering : Float32) :
    (Except FrameError Nat × List UInt8) × Encoder :=
  match Message.encode buffer (.command ⟨e.next, throttle, steering⟩) with
  | (.ok length, buffer) => ((.ok length, buffer), ⟨e.next + 1⟩)
  | (.error error, buffer) => ((.error error, buffer), e)

/-- Writes the frame of the next command to the beginning of a buffer. -/
def Encoder.write (e : Encoder) (buffer : List UInt8) (throttle steering : Float32) :
    Except FrameError Written × Encoder :=
  match e.encode buffer throttle steering with
  | ((.ok length, buffer), e) => (.ok ⟨length, buffer⟩, e)
  | ((.error error, _), e) => (.error error, e)

end ModelCar.Link
