import ModelCar.Proofs.Link.Crc
import ModelCar.Proofs.Link.Message

/-!
# Corrupted frames

A frame in which a few bits have flipped is not taken for a frame, as long as the length
in it is right.  If the damage is in the payload or the check word, then the reader says
that the check word is wrong.  Everything comes from one number: the division of all that
follows the marker is even in a frame, and is not after the damage.
-/

namespace ModelCar.Link

/-! ### The check of a frame -/

/-- The check word of a frame is right if the division of all that follows the marker comes
out even. -/
theorem crc16_eq_storedCrc_iff {bytes : List UInt8} {n : Nat}
    (h : bytes.length = headerSize + n + crcSize) :
  crc16 ((bytes.take (headerSize + n)).drop 2) = storedCrc bytes n ↔ crc16 (bytes.drop 2) = 0
  := by
  have hrest : (bytes.drop (headerSize + n)).length = 2 := by
    rw [List.length_drop, h, crcSize]
    omega
  obtain ⟨low, high, hcrc⟩ := List.length_eq_two.mp hrest
  have hbytes : bytes.drop 2 = (bytes.take (headerSize + n)).drop 2 ++ [low, high] := by
    rw [← hcrc, ← List.drop_append_of_le_length, List.take_append_drop]
    rw [List.length_take, h, headerSize]
    omega
  rw [hbytes, crc16_concat_eq_zero, storedCrc, hcrc]

/-- Bytes that are read as a message of their full length pass the check. -/
theorem Message.crc16_of_read {bytes : List UInt8} {m : Message}
    (h : Message.read bytes = .ok (m, bytes.length)) :
  crc16 (bytes.drop 2) = 0
  := by
  obtain ⟨header, -, hlen, -, -, hcrc⟩ := Message.frame_of_read h
  exact (crc16_eq_storedCrc_iff hlen.symm).mp hcrc

namespace Message

variable (m : Message) {bytes : List UInt8}

theorem crc16_frame :
  crc16 (m.frame.drop 2) = 0
  := by
  have hframe : m.frame.drop 2 = covered m.kind m.payload
      ++ bytes16 (crc16 (covered m.kind m.payload)) := rfl
  rw [hframe, bytes16, crc16_concat_eq_zero, word16_bytes]

theorem length_frame_of_length {header : Header} (hr : Header.read bytes = .ok header)
    (h : (bytes.drop 4).take 2 = (m.frame.drop 4).take 2) :
  header.frameLength = m.frame.length
  := by
  obtain ⟨low, high, rest, rfl, hlen⟩ := Header.eq_of_read hr
  have hbytes : [low, high] = bytes16 (.ofNat m.payload.length) := h
  obtain ⟨rfl, hrest⟩ := List.cons.inj hbytes
  obtain ⟨rfl, -⟩ := List.cons.inj hrest
  rw [word16_bytes, UInt16.toNat_ofNat_of_lt' m.payload_lt] at hlen
  rw [Header.frameLength, hlen, m.length_frame]

/-- Bytes that begin like a frame and do not pass the check are refused for it. -/
theorem readAs_of_crc16_ne (hlen : bytes.length = m.frame.length)
    (hbegin : bytes.take 6 = m.frame.take 6) (hcrc : crc16 (bytes.drop 2) ≠ 0) :
  Message.readAs m.kind bytes = .error .crcMismatch
  := by
  have hread : Header.read bytes = .ok ⟨m.kind, m.payload.length⟩ := by
    have hframe : m.frame.take 6
        = 0xAA :: 0x55 :: 1 :: m.kind.code :: bytes16 (.ofNat m.payload.length) := rfl
    rw [← List.take_append_drop 6 bytes, hbegin, hframe]
    refine (Header.read_beginning m.kind _ _ _).trans ?_
    rw [word16_bytes, UInt16.toNat_ofNat_of_lt' m.payload_lt]
  rw [m.length_frame] at hlen
  rw [ne_eq, ← crc16_eq_storedCrc_iff hlen] at hcrc
  have hpayload : Link.payload bytes m.kind m.kind.fits = .error .crcMismatch := by
    simp only [Link.payload, hread, ne_eq, not_true_eq_false, if_false, m.fits_payload,
      Header.frameLength, hlen, lt_irrefl, hcrc, not_false_eq_true, if_true]
  rw [Message.readAs_eq, readKind, hpayload]

/-! ### Damage -/

theorem crc16_ne_zero_of_flips (hlen : bytes.length = m.frame.length)
    (hmarker : bytes.take 2 = m.frame.take 2) (hpos : 1 ≤ flips bytes m.frame)
    (hle : flips bytes m.frame ≤ 3) :
  crc16 (bytes.drop 2) ≠ 0
  := by
  rw [← flips_drop hmarker] at hpos hle
  rw [← m.crc16_frame]
  refine crc16_ne_of_flips ?_ ?_ hpos hle
  · rw [List.length_drop, List.length_drop, hlen]
  · rw [List.length_drop, hlen]
    exact (Nat.sub_le _ _).trans m.length_frame_le

theorem crc16_ne_zero_of_burst (hlen : bytes.length = m.frame.length)
    (hmarker : bytes.take 2 = m.frame.take 2) (hne : bytes ≠ m.frame) {i : Nat}
    (htake : bytes.take i = m.frame.take i) (hdrop : bytes.drop (i + 2) = m.frame.drop (i + 2)) :
  crc16 (bytes.drop 2) ≠ 0
  := by
  rw [← m.crc16_frame]
  -- within the bytes that are checked the damage begins two places earlier
  refine crc16_ne_of_burst ?_ ?_ (i := i - 2) ?_ ?_
  · rw [List.length_drop, List.length_drop, hlen]
  · intro hrest
    apply hne
    rw [← List.take_append_drop 2 bytes, hmarker, hrest, List.take_append_drop]
  · have hfirst : bytes.take (2 + (i - 2)) = m.frame.take (2 + (i - 2)) := by
      obtain hi | hi := Nat.le_total i 2
      · rwa [Nat.sub_eq_zero_of_le hi]
      · rwa [Nat.add_sub_cancel' hi]
    rw [List.take_drop, List.take_drop, hfirst]
  · obtain ⟨j, hj⟩ := Nat.exists_eq_add_of_le (show i + 2 ≤ 2 + (i - 2 + 2) by omega)
    rw [List.drop_drop, List.drop_drop, hj, ← List.drop_drop, hdrop, List.drop_drop]

/-- A frame of which one to three bits have flipped, none of them in the length, is not read
as a message.  If the damage is behind the length, in one to three bits or within two
adjacent bytes, then the reader for frames of this kind says that the check word is
wrong. -/
theorem corruption_detected {buffer : List UInt8} {written : Written}
    (hw : m.write buffer = .ok written) (hlen : bytes.length = written.frame.length) :
  (1 ≤ flips bytes written.frame ∧ flips bytes written.frame ≤ 3 →
      (bytes.drop 4).take 2 = (written.frame.drop 4).take 2 →
      ∃ e, Message.read bytes = .error e) ∧
    (bytes.take 6 = written.frame.take 6 →
      (1 ≤ flips bytes written.frame ∧ flips bytes written.frame ≤ 3 ∨
        bytes ≠ written.frame ∧ ∃ i, bytes.take i = written.frame.take i ∧
          bytes.drop (i + 2) = written.frame.drop (i + 2)) →
      Message.readAs m.kind bytes = .error .crcMismatch)
  := by
  rw [m.frame_of_write hw] at hlen ⊢
  constructor
  · rintro ⟨hpos, hle⟩ hlength
    cases hread : Message.read bytes with
    | error e => exact ⟨e, rfl⟩
    | ok result =>
        obtain ⟨received, n⟩ := result
        obtain ⟨header, hr, hn, -⟩ := Message.frame_of_read hread
        have hmarker : bytes.take 2 = m.frame.take 2 := by
          obtain ⟨_, _, _, rfl, -⟩ := Header.eq_of_read hr
          rfl
        have hfull : n = bytes.length := by
          rw [← hn, m.length_frame_of_length hr hlength, hlen]
        rw [hfull] at hread
        exact absurd (crc16_of_read hread) (m.crc16_ne_zero_of_flips hlen hmarker hpos hle)
  · intro hbegin hdamage
    have hmarker : bytes.take 2 = m.frame.take 2 := by
      simpa [List.take_take] using congrArg (List.take 2) hbegin
    apply m.readAs_of_crc16_ne hlen hbegin
    obtain ⟨hpos, hle⟩ | ⟨hne, i, htake, hdrop⟩ := hdamage
    · exact m.crc16_ne_zero_of_flips hlen hmarker hpos hle
    · exact m.crc16_ne_zero_of_burst hlen hmarker hne htake hdrop

/-- The frame of a log text in a buffer of ten bytes. -/
def greeting : Written where
  length := 10
  buffer := (Message.log "hi").frame

/-- The same frame with its two letters exchanged: in each of them one bit has flipped. -/
def exchanged : List UInt8 :=
  greeting.frame.take 6 ++ [105, 104] ++ greeting.frame.drop 8

theorem corruption_detected_exchanged :
  ((Message.log "hi").write (List.replicate 10 0) = .ok greeting ∧
    exchanged.length = greeting.frame.length ∧ flips exchanged greeting.frame = 2 ∧
    exchanged.take 6 = greeting.frame.take 6) ∧
    (∃ e, Message.read exchanged = .error e) ∧
    Message.readAs .log exchanged = .error .crcMismatch
  := by
  have hw : (Message.log "hi").write (List.replicate 10 0) = .ok greeting := by decide +kernel
  have hlen : exchanged.length = greeting.frame.length := by decide +kernel
  have hflips : flips exchanged greeting.frame = 2 := by decide +kernel
  have hbegin : exchanged.take 6 = greeting.frame.take 6 := by decide +kernel
  have hfew : 1 ≤ flips exchanged greeting.frame ∧ flips exchanged greeting.frame ≤ 3 := by
    rw [hflips]
    decide
  obtain ⟨hread, hreadAs⟩ := corruption_detected (.log "hi") hw hlen
  exact ⟨⟨hw, hlen, hflips, hbegin⟩, hread hfew (by decide +kernel), hreadAs hbegin (.inl hfew)⟩

end Message

end ModelCar.Link
