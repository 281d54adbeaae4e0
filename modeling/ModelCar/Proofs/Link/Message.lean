import ModelCar.Link.Bridge
import ModelCar.Proofs.Link.Reading
import ModelCar.Proofs.Number.Word
import ModelCar.Proofs.Text.Boundary

/-!
# Messages and their frames

A buffer that is long enough gets the frame of a message at its beginning, and the frame
is read as the message that arrives: `Message.encode_of_le`, `Message.read_frame`.  A
report arrives as it was; a command with throttle and steering rounded; a log text cut to
its longest beginning of whole characters.
-/

namespace ModelCar.Link

/-! ### Frames -/

theorem length_frame (kind : Kind) (body : List UInt8) :
  (frame kind body).length = headerSize + body.length + crcSize
  := by
  simp only [frame, covered, bytes16, List.length_cons, List.length_append, List.length_nil,
    headerSize, crcSize]
  omega

/-- A frame with what follows it: its beginning, its payload, and the rest. -/
theorem frame_append (kind : Kind) (body rest : List UInt8) :
  frame kind body ++ rest
    = 0xAA :: 0x55 :: covered kind body ++ (bytes16 (crc16 (covered kind body)) ++ rest)
  := List.append_assoc ..

theorem length_covered (kind : Kind) (body : List UInt8) :
  (0xAA :: 0x55 :: covered kind body).length = headerSize + body.length
  := by
  simp only [covered, bytes16, List.length_cons, List.length_append, List.length_nil,
    headerSize]
  omega

/-- The beginning of a frame is read as it was written. -/
theorem Header.read_frame (kind : Kind) {body : List UInt8} (h : body.length < UInt16.size)
    (rest : List UInt8) :
  Header.read (frame kind body ++ rest) = .ok ⟨kind, body.length⟩
  := by
  have hlen : (word16 (UInt16.ofNat body.length).toUInt8
      (UInt16.ofNat body.length >>> 8).toUInt8).toNat = body.length := by
    rw [word16_bytes, UInt16.toNat_ofNat_of_lt' h]
  simp only [frame_append, covered, bytes16, List.cons_append, List.nil_append, Header.read,
    and_self, not_true_eq_false, if_false, ne_eq, Kind.ofCode?_code, hlen]

/-- The payload of a frame is read as it was written. -/
theorem payload_frame (kind : Kind) {body : List UInt8} {fits : Nat → Bool}
    (hfits : fits body.length) (h : body.length < UInt16.size) (rest : List UInt8) :
  payload (frame kind body ++ rest) kind fits = .ok body
  := by
  have htake : (frame kind body ++ rest).take (headerSize + body.length)
      = 0xAA :: 0x55 :: covered kind body := by
    rw [frame_append, List.take_left' (length_covered kind body)]
  have hcrc : storedCrc (frame kind body ++ rest) body.length = crc16 (covered kind body) := by
    rw [storedCrc, frame_append, List.drop_left' (length_covered kind body)]
    exact word16_bytes _
  have hbody : ((frame kind body ++ rest).drop headerSize).take body.length = body := by
    rw [List.take_drop, htake]
    rfl
  have hlen : ¬ (frame kind body ++ rest).length < headerSize + body.length + crcSize := by
    rw [List.length_append, length_frame]
    omega
  simp only [payload, Header.read_frame kind h, ne_eq, not_true_eq_false, if_false, hfits,
    Header.frameLength, hlen, htake, hcrc, hbody, List.drop_succ_cons, List.drop_zero]

/-! ### Putting a frame into a buffer -/

theorem overwrite_next {done : List UInt8} {n : Nat} (h : done.length = n)
    (buffer bytes : List UInt8) :
  overwrite (done ++ buffer.drop n) n bytes
    = (done ++ bytes) ++ buffer.drop (n + bytes.length)
  := by
  subst h
  rw [overwrite, List.take_left, ← List.drop_drop, List.drop_left, List.drop_drop]

/-- The parts of a frame before its check word, put into a buffer one after the other. -/
theorem overwrite_covered (buffer : List UInt8) (kind : Kind) (body : List UInt8) :
  overwrite
      (overwrite
        (overwrite (overwrite (overwrite buffer 0 [0xAA, 0x55]) 2 [1]) 3 [kind.code]) 4
        (bytes16 (.ofNat body.length)))
      headerSize body
    = (0xAA :: 0x55 :: covered kind body) ++ buffer.drop (headerSize + body.length)
  := by
  have hversion : overwrite (overwrite buffer 0 [0xAA, 0x55]) 2 [1]
      = [0xAA, 0x55, 1] ++ buffer.drop 3 := overwrite_next rfl buffer [1]
  have hkind : overwrite ([0xAA, 0x55, 1] ++ buffer.drop 3) 3 [kind.code]
      = [0xAA, 0x55, 1, kind.code] ++ buffer.drop 4 := overwrite_next rfl buffer [kind.code]
  have hlength : overwrite ([0xAA, 0x55, 1, kind.code] ++ buffer.drop 4) 4
        (bytes16 (.ofNat body.length))
      = 0xAA :: 0x55 :: 1 :: kind.code :: bytes16 (.ofNat body.length) ++ buffer.drop 6 :=
    overwrite_next rfl buffer (bytes16 (.ofNat body.length))
  rw [hversion, hkind, hlength]
  exact overwrite_next rfl buffer body

/-- A buffer that is long enough gets the frame at its beginning and keeps the rest. -/
theorem encode_of_le {buffer body : List UInt8} (kind : Kind) (hb : body.length < UInt16.size)
    (h : headerSize + body.length + crcSize ≤ buffer.length) :
  encode buffer kind body
    = (.ok (frame kind body).length, frame kind body ++ buffer.drop (frame kind body).length)
  := by
  have hroom : ¬ (buffer.length < headerSize + body.length + crcSize ∨
      UInt16.size ≤ body.length) := by
    omega
  simp only [encode, if_neg hroom, overwrite_covered, List.take_left' (length_covered kind body),
    List.drop_succ_cons, List.drop_zero, overwrite_next (length_covered kind body), length_frame]
  rfl

/-- A buffer that is too short stays as it is. -/
theorem encode_of_lt {buffer body : List UInt8} (kind : Kind)
    (h : buffer.length < headerSize + body.length + crcSize) :
  encode buffer kind body = (.error .bufferTooSmall, buffer)
  := by rw [encode, if_pos (.inl h)]

/-! ### What arrives -/

/-- The message that arrives when a message is sent. -/
def Message.delivered : Message → Message
  | .command c =>
    .command ⟨c.seq, dequantize (quantize c.throttle), dequantize (quantize c.steering)⟩
  | .telemetry t => .telemetry t
  | .ping => .ping
  | .pong => .pong
  | .log text => .log (String.ofList (Utf8.keep logLimit text.toList))

/-- A message and what arrives of it: a command with throttle and steering rounded to the
numbers of a frame, a log text cut to its longest beginning of whole characters that
fits, everything else as it was. -/
def Message.ArrivesAs : Message → Message → Prop
  | .command c, .command d =>
    d.seq = c.seq ∧ d.throttle = dequantize (quantize c.throttle) ∧
      d.steering = dequantize (quantize c.steering)
  | .telemetry t, .telemetry u => u = t
  | .ping, .ping => True
  | .pong, .pong => True
  | .log text, .log kept => Utf8.LongestBeginning 200 text.toList kept.toList
  | _, _ => False

theorem Message.arrivesAs_delivered (m : Message) :
  m.ArrivesAs m.delivered
  := by
  cases m with
  | command c => exact ⟨rfl, rfl, rfl⟩
  | telemetry t => rfl
  | ping => trivial
  | pong => trivial
  | log text =>
      show Utf8.LongestBeginning 200 text.toList
        (String.ofList (Utf8.keep logLimit text.toList)).toList
      rw [String.toList_ofList]
      apply Utf8.keep_longestBeginning

theorem Status.ofBits_toBits (s : Status) :
  Status.ofBits s.toBits = s
  := by
  obtain ⟨radio, wireless, failsafe⟩ := s
  cases radio <;> cases wireless <;> cases failsafe <;> rfl

theorem Telemetry.ofPayload?_payload (t : Telemetry) :
  Telemetry.ofPayload? t.payload = some t
  := by
  simp only [payload, bytes16, List.cons_append, List.nil_append, ofPayload?, word16_bytes,
    Status.ofBits_toBits, Int16.toInt16_toUInt16]

theorem Command.ofPayload?_payload (c : Command) :
  Command.ofPayload? c.payload
    = some ⟨c.seq, dequantize (quantize c.throttle), dequantize (quantize c.steering)⟩
  := by
  simp only [payload, bytes16, List.cons_append, List.nil_append, ofPayload?, word16_bytes,
    Int16.toInt16_toUInt16]

/-- The payload of a log text has the bytes of its longest beginning that fits. -/
theorem logPayload_eq (text : String) :
  logPayload text = Utf8.encode (Utf8.keep logLimit text.toList)
  := Utf8.take_cut_encode (Utf8.keep_longestBeginning ..)

/-- The payload of a message is read as the message that arrives. -/
theorem Message.ofPayload?_payload (m : Message) :
  Message.ofPayload? m.kind m.payload = some m.delivered
  := by
  cases m with
  | command c => exact congrArg (Option.map Message.command) c.ofPayload?_payload
  | telemetry t => exact congrArg (Option.map Message.telemetry) t.ofPayload?_payload
  | ping => rfl
  | pong => rfl
  | log text =>
      simp only [kind, payload, ofPayload?, logPayload_eq, Utf8.decode_encode, delivered]

/-- The payload of a message has a length that its kind allows. -/
theorem Message.fits_payload (m : Message) :
  m.kind.fits m.payload.length
  := by
  cases m with
  | command c => rfl
  | telemetry t => rfl
  | ping => rfl
  | pong => rfl
  | log text =>
      rw [payload, logPayload_eq]
      exact decide_eq_true (Utf8.keep_longestBeginning logLimit text.toList).length_le

/-- The frame of a message. -/
def Message.frame (m : Message) : List UInt8 :=
  Link.frame m.kind m.payload

theorem Message.payload_lt (m : Message) :
  m.payload.length < UInt16.size
  := (Kind.le_of_fits m.fits_payload).trans_lt (by decide)

theorem Message.length_frame (m : Message) :
  m.frame.length = headerSize + m.payload.length + crcSize
  := Link.length_frame m.kind m.payload

theorem Message.length_frame_le (m : Message) :
  m.frame.length ≤ longestFrame
  := by
  have := Kind.le_of_fits m.fits_payload
  rw [m.length_frame, longestFrame]
  omega

/-- The reader for frames of one kind reads the frame of a message of this kind as the
message that arrives. -/
theorem Message.readAs_frame (m : Message) (rest : List UInt8) :
  Message.readAs m.kind (m.frame ++ rest) = .ok m.delivered
  := by
  rw [Message.readAs_eq, readKind, Message.frame,
    payload_frame m.kind m.fits_payload m.payload_lt]
  simp only [Message.ofPayload?_payload]

/-- The frame of a message is read as the message that arrives, whatever follows it. -/
theorem Message.read_frame (m : Message) (rest : List UInt8) :
  Message.read (m.frame ++ rest) = .ok (m.delivered, m.frame.length)
  := by
  have hr : Header.read (m.frame ++ rest) = .ok ⟨m.kind, m.payload.length⟩ :=
    Header.read_frame m.kind m.payload_lt rest
  rw [Message.read_of_header hr, m.readAs_frame, m.length_frame]
  rfl

/-! ### Writing -/

theorem Message.encode_of_le (m : Message) {buffer : List UInt8}
    (h : m.frame.length ≤ buffer.length) :
  m.encode buffer = (.ok m.frame.length, m.frame ++ buffer.drop m.frame.length)
  := by
  rw [m.length_frame] at h
  exact Link.encode_of_le m.kind m.payload_lt h

theorem Message.encode_of_lt (m : Message) {buffer : List UInt8}
    (h : buffer.length < m.frame.length) :
  m.encode buffer = (.error .bufferTooSmall, buffer)
  := by
  rw [m.length_frame] at h
  exact Link.encode_of_lt m.kind h

theorem Message.write_of_le (m : Message) {buffer : List UInt8}
    (h : m.frame.length ≤ buffer.length) :
  m.write buffer = .ok ⟨m.frame.length, m.frame ++ buffer.drop m.frame.length⟩
  := by
  have hencode := m.encode_of_le h
  rw [encode] at hencode
  rw [Message.write, Link.write, hencode]

/-- What is written is the frame of the message. -/
theorem Message.frame_of_write (m : Message) {buffer : List UInt8} {written : Written}
    (h : m.write buffer = .ok written) :
  written.frame = m.frame
  := by
  obtain hlt | hle := Nat.lt_or_ge buffer.length m.frame.length
  · have hencode := m.encode_of_lt hlt
    rw [encode] at hencode
    rw [Message.write, Link.write, hencode] at h
    cases h
  · rw [m.write_of_le hle] at h
    cases h
    exact List.take_left

/-- Every message can be written into the buffer for frames to be sent. -/
theorem Message.write_send (m : Message) :
  ∃ written, m.write (List.replicate Bridge.sendSize 0) = .ok written ∧
    written.frame = m.frame
  := by
  have hroom : longestFrame ≤ (List.replicate Bridge.sendSize (0 : UInt8)).length := by
    rw [List.length_replicate]
    decide
  refine ⟨_, m.write_of_le (m.length_frame_le.trans hroom), ?_⟩
  exact List.take_left

end ModelCar.Link
