import ModelCar.Link.Crc

/-!
# Frames

A frame is the marker `AA 55`, a version, the code of its kind, the length of its
payload, the payload and the check word of all that follows the marker; numbers of
two bytes have the low byte first.  `encode` puts a frame into a buffer and `payload`
reads one.
A reader judges a frame from its beginning: marker, version and kind before the
length is known, then the length, then the presence of all bytes, and the check word
last.
-/

namespace ModelCar.Link

/-- The kinds of frames. -/
inductive Kind where
  | command
  | telemetry
  | ping
  | pong
  | log
deriving DecidableEq, Repr, Inhabited

namespace Kind

/-- The code of a kind in a frame. -/
def code : Kind → UInt8
  | command => 1
  | telemetry => 2
  | ping => 3
  | pong => 4
  | log => 5

/-- The kind with a given code. -/
def ofCode? : UInt8 → Option Kind
  | 1 => some command
  | 2 => some telemetry
  | 3 => some ping
  | 4 => some pong
  | 5 => some log
  | _ => none

/-- The name of a kind. -/
def name : Kind → String
  | command => "command"
  | telemetry => "telemetry"
  | ping => "ping"
  | pong => "pong"
  | log => "log"

@[simp]
theorem ofCode?_code (kind : Kind) :
  ofCode? kind.code = some kind
  := by cases kind <;> rfl

end Kind

/-- Why bytes are not the frame that was expected, or why a frame was not written. -/
inductive FrameError where
  | insufficientData
  | invalidPrefix
  | invalidVersion
  | invalidType
  | invalidPayloadLength
  | crcMismatch
  | bufferTooSmall
deriving DecidableEq, Repr

/-- The wording of a frame error. -/
def FrameError.message : FrameError → String
  | insufficientData => "insufficient data"
  | invalidPrefix => "invalid prefix"
  | invalidVersion => "invalid version"
  | invalidType => "invalid message type"
  | invalidPayloadLength => "invalid payload length"
  | crcMismatch => "crc mismatch"
  | bufferTooSmall => "buffer too small"

/-- The number of bytes before the payload. -/
def headerSize : Nat := 6

/-- The number of bytes after the payload. -/
def crcSize : Nat := 2

/-- The bytes of a number of two bytes, the low one first. -/
def bytes16 (n : UInt16) : List UInt8 :=
  [n.toUInt8, (n >>> 8).toUInt8]

/-- The number of two bytes, the low one first. -/
def word16 (low high : UInt8) : UInt16 :=
  low.toUInt16 ||| (high.toUInt16 <<< 8)

/-- The part of a frame that its check word covers. -/
def covered (kind : Kind) (payload : List UInt8) : List UInt8 :=
  1 :: kind.code :: bytes16 (.ofNat payload.length) ++ payload

/-- The frame of a kind with a payload of less than `2 ^ 16` bytes. -/
def frame (kind : Kind) (payload : List UInt8) : List UInt8 :=
  0xAA :: 0x55 :: covered kind payload ++ bytes16 (crc16 (covered kind payload))

/-- A buffer that a frame has been written into, and the length of the frame. -/
structure Written where
  length : Nat
  buffer : List UInt8
deriving DecidableEq, Repr

/-- The bytes of the frame in a buffer. -/
def Written.frame (w : Written) : List UInt8 :=
  w.buffer.take w.length

/-- Puts bytes into a buffer from a position on, in place of those that are there. -/
def overwrite (buffer : List UInt8) (start : Nat) (bytes : List UInt8) : List UInt8 :=
  buffer.take start ++ bytes ++ buffer.drop (start + bytes.length)

/-- Puts a frame at the beginning of a buffer, part by part, and gives its length; the
check word is that of the bytes in the buffer. -/
def encode (buffer : List UInt8) (kind : Kind) (payload : List UInt8) :
    Except FrameError Nat × List UInt8 :=
  let total := headerSize + payload.length + crcSize
  if buffer.length < total ∨ UInt16.size ≤ payload.length then
    (.error .bufferTooSmall, buffer)
  else
    let buffer := overwrite buffer 0 [0xAA, 0x55]
    let buffer := overwrite buffer 2 [1]
    let buffer := overwrite buffer 3 [kind.code]
    let buffer := overwrite buffer 4 (bytes16 (.ofNat payload.length))
    let buffer := overwrite buffer headerSize payload
    let crc := crc16 ((buffer.take (headerSize + payload.length)).drop 2)
    (.ok total, overwrite buffer (headerSize + payload.length) (bytes16 crc))

/-- Writes a frame to the beginning of a buffer. -/
def write (buffer : List UInt8) (kind : Kind) (payload : List UInt8) :
    Except FrameError Written :=
  match encode buffer kind payload with
  | (.ok length, buffer) => .ok ⟨length, buffer⟩
  | (.error e, _) => .error e

/-- The number of bytes before the first marker. -/
def markerOffset? : List UInt8 → Option Nat
  | 0xAA :: 0x55 :: _ => some 0
  | [] => none
  | _ :: rest => (markerOffset? rest).map (· + 1)

/-- What the beginning of a frame says. -/
structure Header where
  kind : Kind
  payloadLength : Nat
deriving DecidableEq, Repr

namespace Header

/-- The length of the whole frame. -/
def frameLength (h : Header) : Nat :=
  headerSize + h.payloadLength + crcSize

/-- Reads the beginning of a frame; the payload need not be there yet. -/
def read : List UInt8 → Except FrameError Header
  | first :: second :: version :: code :: rest =>
    if ¬ (first = 0xAA ∧ second = 0x55) then .error .invalidPrefix
    else if version ≠ 1 then .error .invalidVersion
    else
      match Kind.ofCode? code with
      | none => .error .invalidType
      | some kind =>
        match rest with
        | low :: high :: _ => .ok ⟨kind, (word16 low high).toNat⟩
        | _ => .error .insufficientData
  | _ => .error .insufficientData

end Header

/-- The check word after a payload of `n` bytes. -/
def storedCrc (bytes : List UInt8) (n : Nat) : UInt16 :=
  match bytes.drop (headerSize + n) with
  | low :: high :: _ => word16 low high
  | _ => 0

/-- The payload of the frame of an expected kind at the beginning of some bytes, if
its length is one that `fits`. -/
def payload (bytes : List UInt8) (expected : Kind) (fits : Nat → Bool) :
    Except FrameError (List UInt8) :=
  match Header.read bytes with
  | .error e => .error e
  | .ok header =>
    let n := header.payloadLength
    if header.kind ≠ expected then .error .invalidType
    else if ¬ fits n then .error .invalidPayloadLength
    else if bytes.length < header.frameLength then .error .insufficientData
    else if crc16 ((bytes.take (headerSize + n)).drop 2) ≠ storedCrc bytes n then
      .error .crcMismatch
    else .ok ((bytes.drop headerSize).take n)

end ModelCar.Link
