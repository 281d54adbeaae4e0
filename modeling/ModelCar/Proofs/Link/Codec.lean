import ModelCar.Proofs.Link.Message
import ModelCar.Proofs.Link.Quantization

/-!
# Frames there and back

A message is put into a buffer as a frame and read from there.  A buffer that is too short
for the frame stays as it is; otherwise nothing behind the frame changes, and the frame is
read as the message that was written, whatever bytes follow it.
-/

namespace ModelCar.Link

/-- A control position and what arrives of it. -/
structure PositionArrivesAs (sent received : Float32) : Prop where
  /-- What is not a number counts as the position at rest. -/
  rest : sent.isNaN → position sent = 0
  /-- Other numbers are brought to the range of the control. -/
  held : sent.isFinite → position sent = max (-1) (min 1 (single sent))
  /-- In exact arithmetic half a step is lost at most. -/
  exact : |dequantizeReal (quantizeReal (position sent)) - position sent| ≤ 1 / 65534
  /-- The same is computed in single precision, with hardly more than half a step of
  error. -/
  computed : received = dequantize (quantize sent) ∧
    |single received - position sent| ≤ 1 / 65534 + 1 / 2 ^ 22

theorem positionArrivesAs_dequantize (x : Float32) :
  PositionArrivesAs x (dequantize (quantize x))
  := by
  constructor
  · exact position_of_isNaN
  · exact position_of_isFinite
  · have h := abs_dequantizeReal_quantizeReal_sub_le (position x)
    rwa [max_min_of_abs_le (abs_position_le x)] at h
  · exact ⟨rfl, abs_single_dequantize_quantize_sub_le x⟩

/-- A message and what is read from its frame: a command with the same number and rounded
positions, a log text cut to its longest beginning of whole characters that fits, everything
else as it was. -/
def Message.RestoredAs : Message → Message → Prop
  | .command c, .command d =>
    d.seq = c.seq ∧ PositionArrivesAs c.throttle d.throttle ∧
      PositionArrivesAs c.steering d.steering
  | .telemetry t, .telemetry u => u = t
  | .ping, .ping => True
  | .pong, .pong => True
  | .log text, .log kept => Utf8.LongestBeginning 200 text.toList kept.toList
  | _, _ => False

theorem Message.restoredAs_delivered (m : Message) :
  m.RestoredAs m.delivered
  := by
  cases m with
  | command c =>
      exact ⟨rfl, positionArrivesAs_dequantize _, positionArrivesAs_dequantize _⟩
  | telemetry t => rfl
  | ping => trivial
  | pong => trivial
  | log text => exact (Message.log text).arrivesAs_delivered

/-- A frame is written exactly if there is room for it; a buffer without room stays as it
is, and with room nothing changes behind the frame.  The readers, the one for frames of all
kinds and the one for frames of this kind, read from it the message that was written,
whatever follows it. -/
theorem frame_there_and_back (m : Message) (buffer rest : List UInt8) :
  match m.encode buffer with
  | (.error e, after) =>
    e = .bufferTooSmall ∧ buffer.length < 8 + m.payload.length ∧ after = buffer
  | (.ok length, after) =>
    length = 8 + m.payload.length ∧ length ≤ buffer.length ∧
      after.length = buffer.length ∧ after.drop length = buffer.drop length ∧
      ∃ received, m.RestoredAs received ∧
        Message.read (after.take length ++ rest) = .ok (received, length) ∧
        Message.readAs m.kind (after.take length ++ rest) = .ok received
  := by
  have hlen : 8 + m.payload.length = m.frame.length := by
    rw [m.length_frame, headerSize, crcSize]
    omega
  rw [hlen]
  obtain hlt | hle := Nat.lt_or_ge buffer.length m.frame.length
  · rw [m.encode_of_lt hlt]
    exact ⟨rfl, hlt, rfl⟩
  · rw [m.encode_of_le hle]
    refine ⟨rfl, hle, ?_, List.drop_left, m.delivered, m.restoredAs_delivered, ?_, ?_⟩
    · rw [List.length_append, List.length_drop]
      omega
    · rw [List.take_left, m.read_frame]
    · rw [List.take_left, m.readAs_frame]

end ModelCar.Link
