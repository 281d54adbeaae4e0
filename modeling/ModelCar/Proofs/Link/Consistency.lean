import ModelCar.Proofs.Link.Crc
import ModelCar.Proofs.Link.Message

/-!
# Consistency of the readers

What a reader accepts is a whole frame at the beginning of the bytes, and nothing else is
accepted: `payload_eq_ok_iff`.  So the reader for messages of any kind agrees with the one
for the kind of the frame, all others refuse the kind, and a message that is built again
gives the frame that it was read from, except for bits and bytes that say nothing.
-/

namespace ModelCar.Link

variable {bytes body : List UInt8} {kind : Kind}

/-! ### Payloads and frames -/

variable (kind) in
/-- The part of a frame before its check word, with the two bytes of the length. -/
theorem covered_eq {low high : UInt8} (h : body.length = (word16 low high).toNat) :
  covered kind body = 1 :: kind.code :: low :: high :: body
  := by
  rw [covered, h, UInt16.ofNat_toNat, bytes16_word16]
  rfl

theorem exists_cons_cons {bytes : List UInt8} (h : 2 ≤ bytes.length) :
  ∃ low high rest, bytes = low :: high :: rest
  := by
  obtain ⟨low, rest, rfl⟩ := List.exists_cons_of_length_pos (Nat.zero_lt_of_lt h)
  obtain ⟨high, rest, rfl⟩ := List.exists_cons_of_length_pos (Nat.lt_of_succ_lt_succ h)
  exact ⟨low, high, rest, rfl⟩

/-- A payload that is read comes from the frame that it makes. -/
theorem frame_of_payload {fits : Nat → Bool} (h : payload bytes kind fits = .ok body) :
  ∃ rest, bytes = frame kind body ++ rest ∧ fits body.length ∧ body.length < UInt16.size
  := by
  obtain ⟨header, hr, rfl, hfits, hlen, hcrc⟩ := fits_of_payload h
  have hshort : ¬ bytes.length < header.frameLength := Nat.not_lt.mpr hlen
  have hbody : (bytes.drop headerSize).take header.payloadLength = body := by
    simpa [payload, hr, hfits, hshort, hcrc] using h
  obtain ⟨low, high, tail, rfl, hn⟩ := Header.eq_of_read hr
  replace hbody : tail.take header.payloadLength = body := hbody
  simp only [List.length_cons, Header.frameLength, headerSize, crcSize] at hlen
  have hlength : body.length = header.payloadLength := by
    rw [← hbody, List.length_take]
    omega
  have hcovered := covered_eq header.kind (hlength.trans hn)
  -- Behind the payload there are the two bytes of the check word.
  have htwo : 2 ≤ (tail.drop header.payloadLength).length := by
    rw [List.length_drop]
    omega
  obtain ⟨checkLow, checkHigh, rest, hrest⟩ := exists_cons_cons htwo
  have htail : tail = body ++ checkLow :: checkHigh :: rest := by
    rw [← hrest, ← hbody, List.take_append_drop]
  have hcheck : crc16 (covered header.kind body) = word16 checkLow checkHigh := by
    rw [hcovered, ← hbody]
    simpa [storedCrc, headerSize, Nat.add_comm 6, hrest] using hcrc
  refine ⟨rest, ?_, ?_, ?_⟩
  · rw [frame_append, hcheck, bytes16_word16, hcovered, htail]
    rfl
  · rwa [hlength]
  · rw [hlength, hn]
    exact UInt16.toNat_lt_size _

/-- Exactly the payloads of frames at the beginning of the bytes are read. -/
theorem payload_eq_ok_iff {fits : Nat → Bool} :
  payload bytes kind fits = .ok body ↔
    ∃ rest, bytes = frame kind body ++ rest ∧ fits body.length ∧ body.length < UInt16.size
  := by
  constructor
  · apply frame_of_payload
  · rintro ⟨rest, rfl, hfits, hsize⟩
    exact payload_frame kind hfits hsize rest

/-! ### Readers -/

theorem Message.kind_of_ofPayload? {m : Message} (h : Message.ofPayload? kind body = some m) :
  m.kind = kind
  := by
  cases kind with
  | command =>
      obtain ⟨c, -, rfl⟩ := Option.map_eq_some_iff.mp h
      rfl
  | telemetry =>
      obtain ⟨t, -, rfl⟩ := Option.map_eq_some_iff.mp h
      rfl
  | ping | pong | log =>
      cases h
      rfl

/-- The bytes are a frame of a kind and what follows it, and the payload of the frame is read
as a message. -/
structure Carries (bytes : List UInt8) (kind : Kind) (m : Message)
    (body rest : List UInt8) : Prop where
  eq_append : bytes = frame kind body ++ rest
  fits : kind.fits body.length
  read : Message.ofPayload? kind body = some m

namespace Carries

variable {m : Message} {rest : List UInt8}

theorem kind_eq (h : Carries bytes kind m body rest) :
  m.kind = kind
  := Message.kind_of_ofPayload? h.read

theorem length_lt (h : Carries bytes kind m body rest) :
  body.length < UInt16.size
  := (Kind.le_of_fits h.fits).trans_lt (by decide)

theorem take_eq (h : Carries bytes kind m body rest) :
  bytes.take (frame kind body).length = frame kind body
  := by rw [h.eq_append, List.take_left]

theorem length_le (h : Carries bytes kind m body rest) :
  (frame kind body).length ≤ bytes.length
  := by
  rw [h.eq_append, List.length_append]
  omega

theorem readHeader (h : Carries bytes kind m body rest) :
  Header.read bytes = .ok ⟨kind, body.length⟩
  := by
  rw [h.eq_append]
  exact Header.read_frame kind h.length_lt rest

/-- The reader for the kind of the frame reads the message. -/
theorem readAs_eq (h : Carries bytes kind m body rest) :
  Message.readAs kind bytes = .ok m
  := by
  rw [Message.readAs_eq, readKind, h.eq_append, payload_frame kind h.fits h.length_lt]
  simp only [h.read]

/-- The readers for other kinds refuse the kind. -/
theorem readAs_of_ne (h : Carries bytes kind m body rest) {other : Kind}
    (hne : other ≠ kind) :
  Message.readAs other bytes = .error .invalidType
  := by
  rw [Message.readAs_eq, readKind, payload, h.readHeader]
  simp only [ne_eq, hne.symm, not_false_eq_true, if_true]

/-- The reader for messages of any kind reads the message, and uses the frame. -/
theorem read_eq (h : Carries bytes kind m body rest) :
  Message.read bytes = .ok (m, (frame kind body).length)
  := by
  rw [Message.read_of_header h.readHeader, h.readAs_eq, length_frame]
  rfl

end Carries

/-- A reader for one kind accepts nothing but frames. -/
theorem exists_carries_of_readAs {m : Message} (h : Message.readAs kind bytes = .ok m) :
  ∃ body rest, Carries bytes kind m body rest
  := by
  rw [Message.readAs_eq, readKind] at h
  cases hp : payload bytes kind kind.fits with
  | error e =>
      rw [hp] at h
      cases h
  | ok body =>
      obtain ⟨rest, hbytes, hfits, -⟩ := payload_eq_ok_iff.mp hp
      use body, rest, hbytes, hfits
      simp only [hp] at h
      split at h
      · rename_i hread
        cases h
        exact hread
      · cases h

/-- So does the reader for messages of any kind. -/
theorem exists_carries_of_read {m : Message} {n : Nat} (h : Message.read bytes = .ok (m, n)) :
  ∃ body rest, Carries bytes m.kind m body rest ∧ n = (frame m.kind body).length
  := by
  obtain ⟨header, hr, -⟩ := Message.frame_of_read h
  cases hm : Message.readAs header.kind bytes with
  | error e =>
      rw [Message.read_of_header hr, hm] at h
      cases h
  | ok read =>
      obtain ⟨body, rest, hc⟩ := exists_carries_of_readAs hm
      obtain ⟨hread, hn⟩ := Prod.mk.inj (Except.ok.inj (hc.read_eq.symm.trans h))
      subst hread
      have hkind : read.kind = header.kind := hc.kind_eq
      rw [← hkind] at hc hn
      exact ⟨body, rest, hc, hn.symm⟩

/-! ### Building what was read -/

/-- A message is built as some bytes in every buffer with room for them. -/
def Message.BuiltAs (m : Message) (bytes : List UInt8) : Prop :=
  ∀ buffer : List UInt8, bytes.length ≤ buffer.length →
    m.encode buffer = (.ok bytes.length, bytes ++ buffer.drop bytes.length)

theorem Message.builtAs_frame (m : Message) :
  m.BuiltAs m.frame
  := fun _ h => m.encode_of_le h

theorem Status.toBits_ofBits (bits : UInt8) :
  (Status.ofBits bits).toBits = bits &&& 7
  := by
  revert bits
  apply forall_byte
  decide +kernel

/-- The payload of a report without the five bits of its status that say nothing. -/
def withoutUnusedBits (body : List UInt8) : List UInt8 :=
  body.modify 2 (· &&& 7)

theorem Telemetry.payload_of_ofPayload? {t : Telemetry} (h : ofPayload? body = some t) :
  t.payload = withoutUnusedBits body
  := by
  unfold ofPayload? at h
  split at h
  · cases h
    simp [payload, bytes16_word16, Status.toBits_ofBits, withoutUnusedBits]
  · cases h

namespace Message

/-- What becomes of a frame when the message that was read from it is built again: a ping
and a pong come out as they were, and so does a log whose bytes are those of a text; of a
report the bits that say nothing are gone, with the check word that belongs to the rest. -/
def RebuiltFrom (body : List UInt8) (m : Message) : Prop :=
  match m with
  | .command _ => True
  | .telemetry _ => m.BuiltAs (Link.frame .telemetry (withoutUnusedBits body))
  | .ping => m.BuiltAs (Link.frame .ping body)
  | .pong => m.BuiltAs (Link.frame .pong body)
  | .log _ => (∃ text, Utf8.encode text = body) → m.BuiltAs (Link.frame .log body)

theorem rebuiltFrom {m : Message} (hfits : m.kind.fits body.length)
    (h : ofPayload? m.kind body = some m) :
  m.RebuiltFrom body
  := by
  cases m with
  | command c => trivial
  | telemetry t =>
      have hread : Telemetry.ofPayload? body = some t := by
        obtain ⟨u, hu, ⟨⟩⟩ := Option.map_eq_some_iff.mp h
        exact hu
      rw [RebuiltFrom, ← Telemetry.payload_of_ofPayload? hread]
      exact (telemetry t).builtAs_frame
  | ping =>
      obtain rfl : body = [] := List.length_eq_zero_iff.mp (of_decide_eq_true hfits)
      exact ping.builtAs_frame
  | pong =>
      obtain rfl : body = [] := List.length_eq_zero_iff.mp (of_decide_eq_true hfits)
      exact pong.builtAs_frame
  | log kept =>
      rintro ⟨text, rfl⟩
      have htext : String.ofList (Utf8.decode (Utf8.encode text)) = kept :=
        Message.log.inj (Option.some.inj h)
      rw [Utf8.decode_encode] at htext
      have hpayload : logPayload kept = Utf8.encode text := by
        rw [logPayload_eq, ← htext, String.toList_ofList,
          Utf8.keep_of_length_le (of_decide_eq_true hfits)]
      rw [← hpayload]
      exact (log kept).builtAs_frame

end Message

/-- What a reader of messages has decided is final: bytes that follow change nothing.  If it
accepts a message, then it has used a whole frame, of which there are eight bytes at least;
among the readers for one kind the one for the kind of the message accepts the same message,
and all others refuse the kind; and built again the message gives the frame, but for what
says nothing.  What one of the readers for one kind accepts is accepted as well. -/
theorem readers_consistent (bytes : List UInt8) :
  (∀ more, Message.read bytes ≠ .error .insufficientData →
    Message.read (bytes ++ more) = Message.read bytes) ∧
  (∀ m n, Message.read bytes = .ok (m, n) →
    8 ≤ n ∧ n ≤ bytes.length ∧
      (∀ kind, Message.readAs kind bytes =
        if kind = m.kind then .ok m else .error .invalidType) ∧
      ∃ body, bytes.take n = frame m.kind body ∧ m.RebuiltFrom body) ∧
  ∀ kind m, Message.readAs kind bytes = .ok m → ∃ n, Message.read bytes = .ok (m, n)
  := by
  refine ⟨?_, ?_, ?_⟩
  · intro more h
    exact Message.read_append h more
  · intro m n h
    obtain ⟨body, rest, hc, rfl⟩ := exists_carries_of_read h
    refine ⟨?_, hc.length_le, ?_, body, hc.take_eq, Message.rebuiltFrom hc.fits hc.read⟩
    · rw [length_frame, headerSize, crcSize]
      omega
    · intro kind
      split
      · rename_i hkind
        rw [hkind]
        exact hc.readAs_eq
      · rename_i hkind
        exact hc.readAs_of_ne hkind
  · intro kind m h
    obtain ⟨body, rest, hc⟩ := exists_carries_of_readAs h
    exact ⟨_, hc.read_eq⟩

/-- A report whose status has two bits that say nothing, and the beginning of another
frame. -/
def reportAndMore : List UInt8 :=
  frame .telemetry ([1, 0, 25] ++ List.replicate 12 0) ++ [170, 85]

theorem readers_consistent_reportAndMore :
  ∃ m, Message.read reportAndMore = .ok (m, 23) ∧
    Message.read (reportAndMore ++ [1]) = .ok (m, 23) ∧
    Message.readAs .telemetry reportAndMore = .ok m ∧
    Message.readAs .ping reportAndMore = .error .invalidType ∧
    ∃ body, reportAndMore.take 23 = frame .telemetry body ∧
      m.BuiltAs (frame .telemetry (withoutUnusedBits body))
  := by
  obtain ⟨hfinal, haccepted, -⟩ := readers_consistent reportAndMore
  let m : Message := .telemetry ⟨1, ⟨true, false, false⟩, 0, 0, 0, 0, 0, 0⟩
  have hread : Message.read reportAndMore = .ok (m, 23) := by decide +kernel
  obtain ⟨-, -, hkinds, body, hbody, hbuilt⟩ := haccepted m 23 hread
  refine ⟨m, hread, ?_, hkinds .telemetry, hkinds .ping, body, hbody, hbuilt⟩
  rw [hfinal [1] (by rw [hread]; rintro ⟨⟩), hread]

end ModelCar.Link
