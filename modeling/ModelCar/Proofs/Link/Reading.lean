import Mathlib
import ModelCar.Link.Message

/-!
# Decisions of a reader

A reader of frames that does not ask for more bytes has decided, and bytes that come later
change nothing: `Message.read_append`.  What it reads lies within the bytes it has, and
the length of a frame is one that its kind allows.
-/

namespace ModelCar.Link

/-- A reader has decided: it has read something, or it refuses the bytes for another reason
than that there are too few. -/
def Decided {α : Type} (result : Except FrameError α) : Prop :=
  result ≠ .error .insufficientData

theorem decided_ok {α : Type} (a : α) :
  Decided (.ok a : Except FrameError α)
  := by
  intro h
  cases h

theorem Decided.of_map {α β : Type} {f : α → β} {result : Except FrameError α}
    (h : Decided (result.map f)) :
  Decided result
  := by
  intro he
  rw [he] at h
  exact h rfl

/-! ### The beginning of a frame -/

/-- Fewer than four bytes decide nothing. -/
theorem Header.read_of_short {bytes : List UInt8} (h : bytes.length < 4) :
  Header.read bytes = .error .insufficientData
  := by
  match bytes with
  | [] => rfl
  | [_] => rfl
  | [_, _] => rfl
  | [_, _, _] => rfl
  | _ :: _ :: _ :: _ :: _ =>
      simp only [List.length_cons] at h
      omega

/-- Four bytes whose first two are not the marker are refused. -/
theorem Header.read_of_not_marker {bytes : List UInt8} (h : markerOffset? bytes ≠ some 0)
    (hlen : 4 ≤ bytes.length) :
  Header.read bytes = .error .invalidPrefix
  := by
  match bytes with
  | first :: second :: version :: code :: rest =>
      have hm : ¬ (first = 0xAA ∧ second = 0x55) := by
        rintro ⟨rfl, rfl⟩
        exact h rfl
      rw [Header.read, if_pos hm]
  | [] => simp at hlen
  | [_] => simp at hlen
  | [_, _] => simp at hlen
  | [_, _, _] => simp at hlen

theorem Header.read_append {bytes : List UInt8} (h : Decided (Header.read bytes))
    (more : List UInt8) :
  Header.read (bytes ++ more) = Header.read bytes
  := by
  match bytes with
  | first :: second :: version :: code :: rest =>
      simp only [List.cons_append, Header.read] at h ⊢
      split
      · rfl
      split
      · rfl
      split
      · rfl
      · match rest with
        | low :: high :: _ => rfl
        | [] => simp_all [Decided]
        | [_] => simp_all [Decided]
  | [] => exact absurd rfl h
  | [_] => exact absurd rfl h
  | [_, _] => exact absurd rfl h
  | [_, _, _] => exact absurd rfl h

/-! ### Payloads -/

theorem Kind.code_of_ofCode? {code : UInt8} {kind : Kind} (h : Kind.ofCode? code = some kind) :
  kind.code = code
  := by
  unfold ofCode? at h
  split at h <;> cases h <;> rfl

/-- Four bytes that are not refused are a marker, the version and the code of a kind. -/
theorem Header.eq_of_not_refused {bytes : List UInt8} (hlen : 4 ≤ bytes.length)
    (h : ∀ e, Header.read bytes = .error e → e = .insufficientData) :
  ∃ (kind : Kind) (rest : List UInt8), bytes = 0xAA :: 0x55 :: 1 :: kind.code :: rest
  := by
  match bytes with
  | first :: second :: version :: code :: rest =>
      by_cases hmarker : first = 0xAA ∧ second = 0x55
      · by_cases hversion : version = 1
        · cases hkind : Kind.ofCode? code with
          | none => cases h .invalidType (by simp [read, hmarker, hversion, hkind])
          | some kind =>
              use kind, rest
              rw [hmarker.1, hmarker.2, hversion, Kind.code_of_ofCode? hkind]
        · cases h .invalidVersion (by simp [read, hmarker, hversion])
      · cases h .invalidPrefix (by simp [read, hmarker])
  | [] => simp at hlen
  | [_] => simp at hlen
  | [_, _] => simp at hlen
  | [_, _, _] => simp at hlen

/-- The two bytes of the length complete the beginning of a frame. -/
theorem Header.read_beginning (kind : Kind) (low high : UInt8) (rest : List UInt8) :
  Header.read (0xAA :: 0x55 :: 1 :: kind.code :: low :: high :: rest)
    = .ok ⟨kind, (word16 low high).toNat⟩
  := by simp [Header.read]

/-- A beginning that is read is a marker, the version, the code of the kind and the length. -/
theorem Header.eq_of_read {bytes : List UInt8} {header : Header}
    (h : Header.read bytes = .ok header) :
  ∃ low high rest, bytes = 0xAA :: 0x55 :: 1 :: header.kind.code :: low :: high :: rest ∧
    header.payloadLength = (word16 low high).toNat
  := by
  have hlen : 4 ≤ bytes.length := by
    by_contra hshort
    rw [Header.read_of_short (Nat.lt_of_not_le hshort)] at h
    cases h
  obtain ⟨kind, rest, rfl⟩ := Header.eq_of_not_refused hlen (by simp [h])
  match rest with
  | low :: high :: rest =>
      rw [Header.read_beginning] at h
      cases h
      exact ⟨low, high, rest, rfl, rfl⟩
  | [] => simp [Header.read] at h
  | [_] => simp [Header.read] at h

theorem storedCrc_append {bytes : List UInt8} {n : Nat}
    (h : headerSize + n + crcSize ≤ bytes.length) (more : List UInt8) :
  storedCrc (bytes ++ more) n = storedCrc bytes n
  := by
  have hdrop : 2 ≤ (bytes.drop (headerSize + n)).length := by
    simp only [List.length_drop, crcSize] at *
    omega
  rw [storedCrc, storedCrc, List.drop_append_of_le_length (by omega)]
  match bytes.drop (headerSize + n), hdrop with
  | _ :: _ :: _, _ => rfl

theorem payload_append {bytes : List UInt8} {kind : Kind} {fits : Nat → Bool}
    (h : Decided (payload bytes kind fits)) (more : List UInt8) :
  payload (bytes ++ more) kind fits = payload bytes kind fits
  := by
  unfold payload at h ⊢
  cases hr : Header.read bytes with
  | error e =>
      rw [hr] at h
      have hd : Decided (Header.read bytes) := by
        rw [hr]
        intro he
        cases he
        exact h rfl
      rw [Header.read_append hd, hr]
  | ok header =>
      have hd : Decided (Header.read bytes) := by
        rw [hr]
        apply decided_ok
      rw [Header.read_append hd, hr]
      simp only [hr] at h ⊢
      split
      · rfl
      split
      · rfl
      by_cases hlen : bytes.length < header.frameLength
      · simp_all [Decided]
      · have hall : headerSize + header.payloadLength + crcSize ≤ bytes.length := by
          simpa only [Header.frameLength, not_lt] using hlen
        have hmore : ¬ (bytes ++ more).length < header.frameLength := by
          rw [List.length_append]
          omega
        rw [if_neg hlen, if_neg hmore, storedCrc_append hall,
          List.take_append_of_le_length (by omega),
          List.drop_append_of_le_length (by omega),
          List.take_append_of_le_length (by rw [List.length_drop]; omega)]

/-- A payload that is read lies within the bytes, its length is one that fits, and the check
word is right. -/
theorem fits_of_payload {bytes body : List UInt8} {kind : Kind} {fits : Nat → Bool}
    (h : payload bytes kind fits = .ok body) :
  ∃ header, Header.read bytes = .ok header ∧ header.kind = kind ∧
    fits header.payloadLength ∧ header.frameLength ≤ bytes.length ∧
    crc16 ((bytes.take (headerSize + header.payloadLength)).drop 2)
      = storedCrc bytes header.payloadLength
  := by
  unfold payload at h
  cases hr : Header.read bytes with
  | error e =>
      rw [hr] at h
      cases h
  | ok header =>
      simp only [hr] at h
      split at h
      · cases h
      split at h
      · cases h
      split at h
      · cases h
      split at h
      · cases h
      use header
      simp_all

/-! ### Messages -/

/-- The message of a payload of some kind. -/
def Message.ofPayload? : Kind → List UInt8 → Option Message
  | .command, body => (Command.ofPayload? body).map .command
  | .telemetry, body => (Telemetry.ofPayload? body).map .telemetry
  | .ping, _ => some .ping
  | .pong, _ => some .pong
  | .log, body => some (.log (String.ofList (Utf8.decode body)))

/-- Messages of all kinds are read in the same way. -/
theorem Message.readAs_eq (kind : Kind) (bytes : List UInt8) :
  Message.readAs kind bytes = readKind kind (Message.ofPayload? kind) bytes
  := by
  have hmap {α β : Type} (f : α → β) (kind : Kind) (read : List UInt8 → Option α) :
      (readKind kind read bytes).map f = readKind kind (fun body => (read body).map f) bytes := by
    unfold readKind
    cases Link.payload bytes kind kind.fits with
    | error e => rfl
    | ok body => cases hb : read body <;> simp [Except.map, hb]
  cases kind <;> exact hmap ..

theorem readKind_append {α : Type} {kind : Kind} {read : List UInt8 → Option α}
    {bytes : List UInt8} (h : Decided (readKind kind read bytes)) (more : List UInt8) :
  readKind kind read (bytes ++ more) = readKind kind read bytes
  := by
  have hd : Decided (payload bytes kind kind.fits) := by
    intro he
    rw [readKind, he] at h
    exact h rfl
  rw [readKind, readKind, payload_append hd]

/-- A message is read by the reader for the kind in the header. -/
theorem Message.read_of_header {bytes : List UInt8} {header : Header}
    (h : Header.read bytes = .ok header) :
  Message.read bytes
    = (Message.readAs header.kind bytes).map fun m => (m, header.frameLength)
  := by
  simp only [Message.read, h, bind, Except.bind]
  cases Message.readAs header.kind bytes <;> rfl

theorem Message.read_of_error {bytes : List UInt8} {e : FrameError}
    (h : Header.read bytes = .error e) :
  Message.read bytes = .error e
  := by simp only [Message.read, h, bind, Except.bind]

/-- What has been read, or refused, does not depend on the bytes that follow. -/
theorem Message.read_append {bytes : List UInt8} (h : Decided (Message.read bytes))
    (more : List UInt8) :
  Message.read (bytes ++ more) = Message.read bytes
  := by
  cases hr : Header.read bytes with
  | error e =>
      rw [Message.read_of_error hr] at h
      have hd : Decided (Header.read bytes) := by
        rw [hr]
        intro he
        cases he
        exact h rfl
      rw [Message.read_of_error hr, Message.read_of_error (by rw [Header.read_append hd, hr])]
  | ok header =>
      rw [Message.read_of_header hr, Message.readAs_eq] at h
      have hd : Decided (Header.read bytes) := by
        rw [hr]
        apply decided_ok
      rw [Message.read_of_header hr,
        Message.read_of_header (by rw [Header.read_append hd, hr]), Message.readAs_eq,
        Message.readAs_eq, readKind_append h.of_map]

/-- A message that is read comes from a complete frame of a length that its kind allows,
with the right check word. -/
theorem Message.frame_of_read {bytes : List UInt8} {m : Message} {n : Nat}
    (h : Message.read bytes = .ok (m, n)) :
  ∃ header, Header.read bytes = .ok header ∧ header.frameLength = n ∧
    header.kind.fits header.payloadLength ∧ n ≤ bytes.length ∧
    crc16 ((bytes.take (headerSize + header.payloadLength)).drop 2)
      = storedCrc bytes header.payloadLength
  := by
  cases hr : Header.read bytes with
  | error e =>
      rw [Message.read_of_error hr] at h
      cases h
  | ok header =>
      rw [Message.read_of_header hr, Message.readAs_eq, readKind] at h
      cases hp : Link.payload bytes header.kind header.kind.fits with
      | error e =>
          rw [hp] at h
          cases h
      | ok body =>
          obtain ⟨header', hr', -, hframe⟩ := fits_of_payload hp
          rw [hr] at hr'
          cases hr'
          simp only [hp] at h
          split at h
          · cases h
            exact ⟨header, rfl, rfl, hframe⟩
          · cases h

/-! ### Lengths of frames -/

/-- The longest payload of all kinds is that of a log text. -/
theorem Kind.le_of_fits {kind : Kind} {n : Nat} (h : kind.fits n) :
  n ≤ logLimit
  := by
  have hcommand : Command.size ≤ logLimit := by decide
  have htelemetry : Telemetry.size ≤ logLimit := by decide
  cases kind with
  | command => exact (of_decide_eq_true h).trans_le hcommand
  | telemetry => exact (of_decide_eq_true h).trans_le htelemetry
  | ping => exact (of_decide_eq_true h).trans_le (Nat.zero_le _)
  | pong => exact (of_decide_eq_true h).trans_le (Nat.zero_le _)
  | log => exact of_decide_eq_true h

/-- The length of the longest frame. -/
def longestFrame : Nat :=
  headerSize + logLimit + crcSize

theorem Header.frameLength_le {header : Header} (h : header.kind.fits header.payloadLength) :
  header.frameLength ≤ longestFrame
  := by
  have := Kind.le_of_fits h
  simp only [frameLength, longestFrame]
  omega

theorem Message.payload_of_incomplete {bytes : List UInt8} {header : Header}
    (hr : Header.read bytes = .ok header)
    (h : Message.read bytes = .error .insufficientData) :
  Link.payload bytes header.kind header.kind.fits = .error .insufficientData
  := by
  rw [Message.read_of_header hr, Message.readAs_eq, readKind] at h
  cases hp : Link.payload bytes header.kind header.kind.fits with
  | error e =>
      rw [hp] at h
      cases h
      rfl
  | ok body =>
      simp only [hp] at h
      split at h <;> cases h

/-- A frame that waits for more bytes has a length that its kind allows, and is longer than
what is there of it: another length is refused as soon as it is known. -/
theorem Header.fits_of_incomplete {bytes : List UInt8} {header : Header}
    (hr : Header.read bytes = .ok header)
    (h : Message.read bytes = .error .insufficientData) :
  header.kind.fits header.payloadLength ∧ bytes.length < header.frameLength
  := by
  have hp := Message.payload_of_incomplete hr h
  simp only [payload, hr, ne_eq, not_true_eq_false, if_false] at hp
  split at hp
  · cases hp
  · rename_i hfits
    split at hp
    · rename_i hlen
      exact ⟨not_not.mp hfits, hlen⟩
    · split at hp <;> cases hp

theorem Header.frameLength_le_of_incomplete {bytes : List UInt8} {header : Header}
    (hr : Header.read bytes = .ok header)
    (h : Message.read bytes = .error .insufficientData) :
  header.frameLength ≤ longestFrame
  := Header.frameLength_le (Header.fits_of_incomplete hr h).1

end ModelCar.Link
