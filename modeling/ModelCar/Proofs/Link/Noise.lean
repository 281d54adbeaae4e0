import ModelCar.Proofs.Link.Bridge
import ModelCar.Proofs.Link.Room

/-!
# A frame after noise

Bytes without a marker in front of a frame do not keep a bridge from receiving the frame,
however few bytes the reads give and however often they give none.  The one exception is
a buffer that the first byte of the frame fills up: it holds no whole marker and is
cleared, and the frame has lost its beginning.  `Awaits` is the invariant of the calls
before the frame is received.
-/

namespace ModelCar.Link

/-! ### Bytes without a marker -/

/-- The bytes contain no marker. -/
def Unmarked (bytes : List UInt8) : Prop :=
  ¬ [0xAA, 0x55] <:+: bytes

instance (bytes : List UInt8) : Decidable (Unmarked bytes) :=
  inferInstanceAs (Decidable (¬ _))

namespace Unmarked

variable {bytes : List UInt8}

theorem of_infix {part : List UInt8} (h : Unmarked bytes) (hpart : part <:+: bytes) :
  Unmarked part
  := fun hmarker => h (hmarker.trans hpart)

/-- The first half of a marker makes no marker of what is before it. -/
theorem concat (h : Unmarked bytes) :
  Unmarked (bytes ++ [0xAA])
  := by
  rw [Unmarked, List.infix_concat_iff]
  rintro (⟨front, hfront⟩ | hinfix)
  · have hlast := congrArg List.getLast? hfront
    simp at hlast
  · exact h hinfix

theorem markerOffset?_ne_zero {byte : UInt8} (h : Unmarked (byte :: bytes)) :
  markerOffset? (byte :: bytes) ≠ some 0
  := by
  rw [ne_eq, markerOffset?_cons_eq_zero]
  rintro ⟨rfl, hhead⟩
  obtain ⟨rest, rfl⟩ := List.head?_eq_some_iff.mp hhead
  exact h (List.prefix_append [0xAA, 0x55] rest).isInfix

theorem markerOffset?_eq_none (h : Unmarked bytes) :
  markerOffset? bytes = none
  := by
  induction bytes with
  | nil => rfl
  | cons byte bytes ih =>
      rw [markerOffset?_cons h.markerOffset?_ne_zero,
        ih (h.of_infix (List.suffix_cons byte bytes).isInfix)]
      rfl

/-- A marker behind other bytes is the first one. -/
theorem markerOffset?_append (h : Unmarked bytes) (rest : List UInt8) :
  markerOffset? (bytes ++ 0xAA :: 0x55 :: rest) = some bytes.length
  := by
  induction bytes with
  | nil => rfl
  | cons byte bytes ih =>
      have hzero : markerOffset? (byte :: (bytes ++ 0xAA :: 0x55 :: rest)) ≠ some 0 := by
        cases bytes with
        | nil => simp [markerOffset?_cons_eq_zero]
        | cons second bytes =>
            exact markerOffset?_cons_append _ (List.cons_ne_nil _ _) h.markerOffset?_ne_zero
      rw [List.cons_append, markerOffset?_cons hzero,
        ih (h.of_infix (List.suffix_cons byte bytes).isInfix)]
      rfl

end Unmarked

/-! ### Whole frames -/

/-- Bytes that are read as a message and are no longer than its frame. -/
def IsFrame (frame : List UInt8) (m : Message) : Prop :=
  Message.read frame = .ok (m, frame.length)

/-- The frame of a message that is sent is a whole frame. -/
theorem isFrame_frame (m : Message) :
  IsFrame m.frame m.delivered
  := by
  have hread := m.read_frame []
  rwa [List.append_nil] at hread

namespace IsFrame

variable {frame : List UInt8} {m : Message}

theorem eq_marker_append (h : IsFrame frame m) :
  ∃ rest, frame = 0xAA :: 0x55 :: rest
  := by
  obtain ⟨header, hr, -⟩ := Message.frame_of_read h
  obtain ⟨low, high, rest, hframe, -⟩ := Header.eq_of_read hr
  exact ⟨_, hframe⟩

theorem length_le (h : IsFrame frame m) :
  frame.length ≤ longestFrame
  := by
  obtain ⟨header, -, hlen, hfits, -⟩ := Message.frame_of_read h
  rw [← hlen]
  exact Header.frameLength_le hfits

/-- A frame that is not complete waits for the rest. -/
theorem read_beginning (h : IsFrame frame m) {bytes more : List UInt8} (hmore : more ≠ [])
    (hframe : bytes ++ more = frame) :
  Message.read bytes = .error .insufficientData
  := by
  by_contra hd
  have hread := Message.read_append hd more
  rw [hframe, h] at hread
  obtain ⟨-, -, -, -, hlen, -⟩ := Message.frame_of_read hread.symm
  have hpos := List.length_pos_iff.mpr hmore
  rw [← hframe, List.length_append] at hlen
  omega

end IsFrame

namespace Receiver

variable {r : Receiver} {frame more noise : List UInt8} {m : Message}

/-! ### The buffer while the frame comes in -/

theorem align_of_unmarked (h : Unmarked r.bytes) (hfull : r.isFull) :
  r.align.bytes = []
  := by
  rw [align, h.markerOffset?_eq_none]
  simp only [hfull, if_true, bytes_clear]

theorem length_align_of_unmarked (h : Unmarked r.bytes) :
  r.align.bytes.length ≤ 1
  := by
  rw [align, h.markerOffset?_eq_none]
  dsimp only
  split
  · exact Nat.zero_le _
  · split
    · rw [bytes_drop, List.length_drop]
      omega
    · exact Nat.zero_le _

/-- The bytes before a frame that has begun are dropped.  Its first byte alone is kept only
by a buffer that is not full. -/
theorem align_of_begun (hnoise : Unmarked noise) {begun rest : List UInt8}
    (hbytes : r.bytes = noise ++ begun) (hbegun : begun ≠ [])
    (hframe : begun ++ more = 0xAA :: 0x55 :: rest) (hfull : begun.length = 1 → ¬ r.isFull) :
  r.align.bytes = begun
  := by
  match begun with
  | [first] =>
      have hfirst : first = 0xAA := (List.cons.inj hframe).1
      rw [align, hbytes, hfirst, hnoise.concat.markerOffset?_eq_none]
      simp [hfull rfl, hbytes, hfirst]
  | first :: second :: begun =>
      have hmarker : first :: second :: begun = 0xAA :: 0x55 :: begun := by
        obtain ⟨rfl, hsecond⟩ := List.cons.inj hframe
        obtain ⟨rfl, -⟩ := List.cons.inj hsecond
        rfl
      rw [align, hbytes, hmarker, hnoise.markerOffset?_append]
      simp only [bytes_drop, hbytes, hmarker, List.drop_left]

theorem next?_of_incomplete (hcap : longestFrame ≤ r.capacity)
    (h : Message.read r.align.bytes = .error .insufficientData) :
  r.next? = (none, r.align)
  := by
  have hfront : r.align.front = .incomplete := by
    rw [front_eq (by rwa [capacity_align]), h]
  rw [next?_eq, hfront]

theorem next?_of_complete (hcap : longestFrame ≤ r.capacity) (h : IsFrame r.align.bytes m) :
  r.next? = (some m, r.align.drop r.align.bytes.length)
  := by
  have hfront : r.align.front = .message m r.align.bytes.length := by
    rw [front_eq (by rwa [capacity_align]), h]
  rw [next?_eq, hfront]

/-- Of noise and a frame behind it, a buffer holds some of the noise, or all of it and the
frame has begun. -/
theorem noise_or_begun {bytes : List UInt8} (hs : bytes ++ more = noise ++ frame) :
  (∃ later, bytes ++ later = noise ∧ more = later ++ frame) ∨
    ∃ begun ≠ [], bytes = noise ++ begun ∧ begun ++ more = frame
  := by
  obtain ⟨later, hnoise, hmore⟩ | ⟨begun, hbytes, hframe⟩ := List.append_eq_append_iff.mp hs
  · exact .inl ⟨later, hnoise.symm, hmore⟩
  · by_cases hbegun : begun = []
    · subst hbegun
      exact .inl ⟨[], by simp [hbytes], by simp [hframe]⟩
    · exact .inr ⟨begun, hbegun, hbytes, hframe.symm⟩

/-- The bytes in a buffer and those that come later are noise and then a frame.  Once the
frame has begun in the buffer there is no noise any more. -/
def Awaits (frame : List UInt8) (r : Receiver) (more : List UInt8) : Prop :=
  ∃ noise, Unmarked noise ∧ r.bytes ++ more = noise ++ frame ∧
    (noise = [] ∨ frame.length ≤ more.length)

/-- Nothing is taken out of noise. -/
theorem next?_of_noise (hcap : longestFrame ≤ r.capacity) {later : List UInt8}
    (h : Unmarked (r.bytes ++ later)) :
  r.next? = (none, r.align) ∧ r.align.Awaits frame (later ++ frame)
  := by
  have hlen := length_align_of_unmarked (h.of_infix (List.prefix_append _ later).isInfix)
  constructor
  · exact next?_of_incomplete hcap (Message.read_of_error (Header.read_of_short (by omega)))
  · refine ⟨r.align.bytes ++ later, ?_, (List.append_assoc ..).symm, .inr ?_⟩
    · obtain ⟨front, hfront⟩ := r.align_suffix
      rw [← hfront, List.append_assoc] at h
      exact h.of_infix (List.suffix_append front _).isInfix
    · rw [List.length_append]
      omega

/-- When the frame is complete it is taken out; before that, nothing is. -/
theorem next?_of_stream (hframe : IsFrame frame m) (hcap : longestFrame ≤ r.capacity)
    (hfull : ¬ r.isFull) (hnoise : Unmarked noise) (hs : r.bytes ++ more = noise ++ frame) :
  (r.next?.1 = some m ∧ r.next?.2.bytes = [] ∧ more = []) ∨
    (r.next?.1 = none ∧ r.next?.2.Awaits frame more ∧ more ≠ [])
  := by
  obtain ⟨rest, hrest⟩ := hframe.eq_marker_append
  obtain ⟨later, rfl, rfl⟩ | ⟨begun, hbegun, hbytes, rfl⟩ := noise_or_begun hs
  · right
    obtain ⟨hnext, hawaits⟩ := next?_of_noise hcap hnoise
    rw [hnext]
    exact ⟨rfl, hawaits, by simp [hrest]⟩
  · have halign := align_of_begun hnoise hbytes hbegun hrest fun _ => hfull
    by_cases hmore : more = []
    · left
      rw [hmore, List.append_nil, ← halign] at hframe
      rw [next?_of_complete hcap hframe]
      exact ⟨rfl, List.drop_length, hmore⟩
    · right
      rw [← halign] at hframe
      rw [next?_of_incomplete hcap (hframe.read_beginning hmore rfl)]
      refine ⟨rfl, ⟨[], ?_, ?_, .inl rfl⟩, hmore⟩
      · exact hnoise.of_infix (List.nil_infix ..)
      · rw [halign, List.nil_append]

end Receiver

namespace Bridge

open Receiver

variable {b : Bridge} {r : Receiver} {frame noise more : List UInt8} {m : Message}

/-! ### Pumping -/

theorem not_dvd_one {n : Nat} (h : longestFrame < n) :
  ¬ n ∣ 1
  := Nat.not_dvd_of_pos_of_lt Nat.one_pos (lt_trans (by decide) h)

theorem not_isFull_align (h : r.align.bytes.length < r.capacity) :
  ¬ r.align.isFull
  := by
  rw [isFull, capacity_align]
  simpa using h

/-- A full buffer of noise is cleared, and one in which the frame has begun loses the noise
before it.  Only a first byte of the frame that is the last one in the buffer is lost. -/
theorem makeRoom_of_stream (hframe : IsFrame frame m) (hcap : longestFrame < r.capacity)
    (hnoise : Unmarked noise) (hs : r.bytes ++ more = noise ++ frame)
    (hfill : more.length < frame.length → ¬ r.capacity ∣ noise.length + 1) :
  ¬ (makeRoom r).isFull ∧ ∃ noise', Unmarked noise' ∧
    (makeRoom r).bytes ++ more = noise' ++ frame ∧
    (r.capacity ∣ noise'.length + 1 → r.capacity ∣ noise.length + 1)
  := by
  by_cases hfull : r.isFull
  · have hlen : r.bytes.length = r.capacity := le_antisymm r.length_le (of_decide_eq_true hfull)
    rw [makeRoom, if_pos hfull]
    obtain ⟨later, rfl, rfl⟩ | ⟨begun, hbegun, hbytes, rfl⟩ := noise_or_begun hs
    · have halign := align_of_unmarked (hnoise.of_infix (List.prefix_append _ _).isInfix) hfull
      refine ⟨not_isFull_align ?_, later, ?_, ?_, ?_⟩
      · rw [halign]
        exact Nat.zero_lt_of_lt hcap
      · exact hnoise.of_infix (List.suffix_append _ later).isInfix
      · rw [halign, List.nil_append]
      · rw [List.length_append, hlen, Nat.add_assoc]
        exact Nat.dvd_add (Nat.dvd_refl _)
    · obtain ⟨rest, hrest⟩ := hframe.eq_marker_append
      have hbegins : begun.length = 1 → ¬ r.isFull := by
        intro hone
        rw [hbytes, List.length_append, hone] at hlen
        refine absurd (dvd_of_eq hlen.symm) (hfill ?_)
        rw [List.length_append, hone]
        omega
      have halign := align_of_begun hnoise hbytes hbegun hrest hbegins
      refine ⟨not_isFull_align ?_, [], ?_, ?_, ?_⟩
      · have := hframe.length_le
        rw [List.length_append] at this
        rw [halign]
        omega
      · exact hnoise.of_infix (List.nil_infix ..)
      · rw [halign, List.nil_append]
      · exact fun hdvd => absurd hdvd (not_dvd_one hcap)
  · rw [makeRoom, if_neg hfull]
    exact ⟨hfull, noise, hnoise, hs, id⟩

theorem length_inbound_pump_le (b : Bridge) :
  b.pump.2.line.inbound.length ≤ b.line.inbound.length
  := by
  apply line_pump (P := fun l => l.inbound.length ≤ b.line.inbound.length)
  · intro l m n bytes hle hread
    rw [← Line.inbound_of_read hread, List.length_append] at hle
    exact le_of_add_le_right hle
  · exact le_rfl

/-- Pumping loses nothing but noise and leaves room in the buffer, unless the first byte of
the frame fills the buffer up. -/
theorem pump_of_stream (hframe : IsFrame frame m) (hl : b.line.Delivers)
    (hcap : longestFrame < b.receiver.capacity) (hnoise : Unmarked noise)
    (hs : b.stream = noise ++ frame)
    (hfill : b.pump.2.line.inbound.length < frame.length →
      ¬ b.receiver.capacity ∣ noise.length + 1) :
  ¬ b.pump.2.receiver.isFull ∧
    ∃ noise', Unmarked noise' ∧ b.pump.2.stream = noise' ++ frame
  := by
  fun_induction pump b generalizing noise with
  | case1 =>
      obtain ⟨hroom, -⟩ := makeRoom_of_stream hframe hcap hnoise hs hfill
      contradiction
  | case2 =>
      rename_i hread
      exact absurd hread (hl.read_ne_error _)
  | case3 =>
      rename_i b receiver _ line hread
      have hin : b.line.inbound = line.inbound := (Line.inbound_of_read hread).symm
      rw [← hin] at hfill
      obtain ⟨hroom, noise', hnoise', hs', -⟩ := makeRoom_of_stream hframe hcap hnoise hs hfill
      refine ⟨hroom, noise', hnoise', ?_⟩
      rw [stream, ← hin]
      exact hs'
  | case4 =>
      rename_i b receiver _ byte bytes line hread result after hafter ih
      have hle : after.line.inbound.length ≤ b.line.inbound.length := by
        have := length_inbound_pump_le ⟨line, receiver.extend (byte :: bytes)⟩
        rw [hafter] at this
        rw [← Line.inbound_of_read hread, List.length_append]
        exact this.trans (Nat.le_add_left _ _)
      obtain ⟨-, noise', hnoise', hs', hdvd⟩ :=
        makeRoom_of_stream hframe hcap hnoise hs fun hlt => hfill (hle.trans_lt hlt)
      have hc : receiver.capacity = b.receiver.capacity := capacity_makeRoom _
      rw [hafter] at ih
      exact ih (hl.of_read hread) (hcap.trans_eq hc.symm) hnoise'
        ((stream_of_read hread).trans hs') fun hlt => hc ▸ mt hdvd (hfill hlt)

/-- Pumping takes bytes from the line, or it reads once and gets none. -/
theorem pump_progress (hl : b.line.Delivers) (hroom : ¬ b.pump.2.receiver.isFull) :
  b.pump.2.line.inbound.length < b.line.inbound.length ∨
    b.pump.2.line = { b.line with reads := b.line.reads + 1 } ∧
      (b.line.grant b.line.reads = 0 ∨ b.line.inbound = [])
  := by
  revert hroom
  fun_cases pump b with
  | case1 receiver hfull => exact fun hroom => absurd hfull hroom
  | case2 receiver _ e hread => exact absurd hread (hl.read_ne_error e)
  | case3 receiver hfree line hread =>
      exact fun _ => .inr (hl.eq_of_read_nil (room_pos hfree) hread)
  | case4 receiver _ byte bytes line hread result after hafter =>
      intro _
      left
      have hle := length_inbound_pump_le ⟨line, receiver.extend (byte :: bytes)⟩
      rw [hafter] at hle
      rw [← Line.inbound_of_read hread, List.length_append, List.length_cons]
      exact hle.trans_lt (by dsimp only; omega)

/-! ### Receiving -/

/-- A bridge that waits for a frame behind noise. -/
structure Awaiting (frame : List UInt8) (b : Bridge) : Prop where
  delivers : b.line.Delivers
  longestFrame_lt : longestFrame < b.receiver.capacity
  awaits : b.receiver.Awaits frame b.line.inbound

/-- The next call of `receive` reads the first of the last `n` bytes of the stream, and with
this byte the buffer gets full. -/
def Splits (n : Nat) (b : Bridge) : Prop :=
  n ≤ b.line.inbound.length ∧ b.receive.bridge.line.inbound.length < n ∧
    b.receiver.capacity ∣ b.stream.length - n + 1

theorem pump_of_awaiting (hframe : IsFrame frame m) (h : b.Awaiting frame)
    (hsplit : ¬ Splits frame.length b) :
  ¬ b.pump.2.receiver.isFull ∧
    ∃ noise, Unmarked noise ∧ b.pump.2.stream = noise ++ frame
  := by
  obtain ⟨noise, hnoise, hs, hwhere⟩ := h.awaits
  apply pump_of_stream hframe h.delivers h.longestFrame_lt hnoise hs
  intro hlt hdvd
  obtain rfl | hle := hwhere
  · exact not_dvd_one h.longestFrame_lt hdvd
  · refine hsplit ⟨hle, hlt, ?_⟩
    rwa [stream, hs, List.length_append, Nat.add_sub_cancel]

theorem capacity_receive (b : Bridge) :
  b.receive.bridge.receiver.capacity = b.receiver.capacity
  := (capacity_next? _).trans b.capacity_pump

theorem waiting_receive_le (b : Bridge) :
  b.receive.bridge.waiting ≤ b.waiting
  := by
  have hnext : b.receive.bridge.receiver.bytes.length ≤ b.pump.2.receiver.bytes.length :=
    (next?_suffix _).length_le
  exact (Nat.add_le_add_left hnext _).trans b.waiting_pump_le

/-- A call of `receive` gives the message of the frame and leaves nothing, or it leaves the
frame still to be received. -/
theorem receive_of_awaiting (hframe : IsFrame frame m) (h : b.Awaiting frame)
    (hsplit : ¬ Splits frame.length b) :
  (b.receive.message = some m ∧ b.receive.bridge.Idle) ∨
    (b.receive.message = none ∧ b.receive.bridge.Awaiting frame ∧
      b.receive.bridge.line.inbound ≠ [])
  := by
  obtain ⟨hfull, noise, hnoise, hs⟩ := pump_of_awaiting hframe h hsplit
  have hl : b.receive.bridge.line.Delivers := line_pump Line.Delivers.of_read h.delivers
  have hcap : longestFrame < b.receive.bridge.receiver.capacity := by
    rw [capacity_receive]
    exact h.longestFrame_lt
  have hpump : longestFrame ≤ b.pump.2.receiver.capacity := by
    rw [capacity_pump]
    exact h.longestFrame_lt.le
  obtain ⟨hsome, hbytes, hin⟩ | ⟨hnone, hawaits, hin⟩ :=
    next?_of_stream hframe hpump hfull hnoise hs
  · left
    refine ⟨hsome, hl, Nat.zero_lt_of_lt hcap, ?_⟩
    exact List.append_eq_nil_iff.mpr ⟨hbytes, hin⟩
  · exact .inr ⟨hnone, ⟨hl, hcap, hawaits⟩, hin⟩

/-! ### Receiving to the end -/

/-- The bridge after some calls of `receive`. -/
def after : Nat → Bridge → Bridge
  | 0, b => b
  | n + 1, b => after n b.receive.bridge

/-- After some calls of `receive` the next one gives nothing, and the line is empty then. -/
def Ends (n : Nat) (b : Bridge) : Prop :=
  (after n b).receive.message = none ∧ (after n b).receive.bridge.line.inbound = []

instance (n : Nat) (b : Bridge) : Decidable (Ends n b) :=
  inferInstanceAs (Decidable (_ ∧ _))

/-- When receiving has come to an end, it has given the message of the frame. -/
theorem received_of_ends (hframe : IsFrame frame m) {n : Nat} (h : b.Awaiting frame)
    (hsplit : ∀ k, ¬ Splits frame.length (after k b)) (hend : Ends n b) :
  (receives (n + 1) b).reduceOption = [m]
  := by
  induction n generalizing b with
  | zero =>
      obtain ⟨hsome, -⟩ | ⟨-, -, hin⟩ := receive_of_awaiting hframe h (hsplit 0)
      · rw [Ends, after, hsome] at hend
        cases hend.1
      · exact absurd hend.2 hin
  | succ n ih =>
      rw [receives_succ]
      obtain ⟨hsome, hidle⟩ | ⟨hnone, hawaiting, -⟩ := receive_of_awaiting hframe h (hsplit 0)
      · rw [hsome, receives_of_idle _ hidle]
        simp
      · rw [hnone, List.reduceOption_cons_of_none]
        exact ih hawaiting (fun k => hsplit (k + 1)) hend

/-- Receiving comes to an end. -/
theorem exists_ends (hframe : IsFrame frame m) {b : Bridge} (h : b.Awaiting frame)
    (hsplit : ∀ k, ¬ Splits frame.length (after k b)) {k : Nat} (hk : b.line.reads ≤ k)
    (hgrant : 0 < b.line.grant k) :
  ∃ n, Ends n b
  := by
  obtain ⟨-, hidle⟩ | ⟨-, hawaiting, hin⟩ := receive_of_awaiting hframe h (hsplit 0)
  · obtain ⟨hnone, hidle⟩ := receive_of_idle hidle
    exact ⟨1, hnone, (List.append_eq_nil_iff.mp hidle.stream_eq).2⟩
  · have hrest (k) := hsplit (k + 1)
    obtain hlt | ⟨hline, hgave⟩ :=
      pump_progress h.delivers (pump_of_awaiting hframe h (hsplit 0)).1
    · obtain ⟨k', hk', hgrant'⟩ := hawaiting.delivers.grant_pos b.receive.bridge.line.reads
      obtain ⟨n, hn⟩ := exists_ends hframe hawaiting hrest hk' hgrant'
      exact ⟨n + 1, hn⟩
    · have hline' : b.receive.bridge.line = { b.line with reads := b.line.reads + 1 } := hline
      have hinbound : b.receive.bridge.line.inbound = b.line.inbound := by rw [hline']
      have hreads : b.receive.bridge.line.reads = b.line.reads + 1 := by rw [hline']
      have hgrants : b.receive.bridge.line.grant = b.line.grant := by rw [hline']
      have hlt : b.line.reads < k := by
        apply Nat.lt_of_le_of_ne hk
        rintro rfl
        obtain hzero | hnil := hgave
        · omega
        · exact hin (hinbound.trans hnil)
      obtain ⟨n, hn⟩ := exists_ends hframe hawaiting hrest (hreads ▸ hlt) (hgrants ▸ hgrant)
      exact ⟨n + 1, hn⟩
termination_by (b.line.inbound.length, k - b.line.reads)
decreasing_by
  · exact Prod.Lex.left _ _ hlt
  · rw [hinbound, hreads]
    exact Prod.Lex.right _ (by omega)

/-- A bridge with an empty buffer at whose line noise and a frame have arrived. -/
theorem awaiting_of_inbound {l : Line} (hl : l.Delivers) (hnoise : Unmarked noise)
    (hin : l.inbound = noise ++ frame) :
  Awaiting frame ⟨l, {}⟩
  := by
  refine ⟨hl, show longestFrame < 1024 by decide, noise, hnoise, hin, .inr ?_⟩
  rw [hin, List.length_append]
  exact Nat.le_add_left _ _

/-- If the bytes before the frame and its first byte do not fill the buffer, no call splits
the marker of the frame. -/
theorem not_splits_of_short {n : Nat} (h : b.waiting + 1 < b.receiver.capacity + n) (k : Nat) :
  ¬ Splits n (after k b)
  := by
  induction k generalizing b with
  | zero =>
      rintro ⟨hn, -, hdvd⟩
      refine Nat.not_dvd_of_pos_of_lt (Nat.succ_pos _) ?_ hdvd
      rw [stream, List.length_append]
      rw [waiting] at h
      dsimp only [after] at hn ⊢
      omega
  | succ k ih =>
      apply ih
      have := b.waiting_receive_le
      rw [capacity_receive]
      omega

/-- Noise never costs the frame behind it, unless a call of `receive` splits the marker of
the frame.  However few bytes the reads give and however often they give none, receiving
comes to an end, and then the message of the frame has been received and nothing else.
No call splits the marker behind noise of less than 1023 bytes, and if every read gives
bytes then none does behind noise that is not one byte shorter than a multiple of 1024. -/
theorem frame_after_noise {l : Line} (hl : l.Delivers) (hnoise : Unmarked noise)
    (hframe : IsFrame frame m) (hin : l.inbound = noise ++ frame) :
  ((∀ n, ¬ Splits frame.length (after n ⟨l, {}⟩)) →
      (∃ n, Ends n ⟨l, {}⟩) ∧
        ∀ n, Ends n ⟨l, {}⟩ → (receives (n + 1) ⟨l, {}⟩).reduceOption = [m]) ∧
    (noise.length < 1023 → ∀ n, ¬ Splits frame.length (after n ⟨l, {}⟩)) ∧
    (l.Reliable → noise.length % 1024 ≠ 1023 →
      ∀ n, receives (n + 1) ⟨l, {}⟩ = some m :: List.replicate n none)
  := by
  have hawaiting := awaiting_of_inbound hl hnoise hin
  have hbefore : (⟨l, {}⟩ : Bridge).stream.length - frame.length = noise.length := by
    rw [stream, hin, List.nil_append, List.length_append, Nat.add_sub_cancel]
  refine ⟨?_, ?_, ?_⟩
  · intro hsplit
    obtain ⟨k, hk, hgrant⟩ := hl.grant_pos l.reads
    exact ⟨exists_ends hframe hawaiting hsplit hk hgrant,
      fun n => received_of_ends hframe hawaiting hsplit⟩
  · intro hlen
    apply not_splits_of_short
    rw [waiting, hin, List.length_append]
    show noise.length + frame.length + 0 + 1 < 1024 + frame.length
    omega
  · intro hreliable hlen n
    have hsplit : ¬ Splits frame.length ⟨l, {}⟩ := by
      rintro ⟨-, -, hdvd⟩
      rw [hbefore] at hdvd
      have : 1024 ∣ noise.length + 1 := hdvd
      omega
    have hempty : (⟨l, {}⟩ : Bridge).pump.2.line.inbound = [] :=
      (full_or_all_pump hreliable).resolve_left
        (pump_of_awaiting hframe hawaiting hsplit).1
    obtain ⟨hsome, hidle⟩ | ⟨-, -, hne⟩ := receive_of_awaiting hframe hawaiting hsplit
    · rw [receives_succ, hsome, receives_of_idle n hidle]
    · exact absurd hempty hne

/-- Noise that ends with half a marker, and a ping behind it, at a line where every other
read gives nothing. -/
def hesitant : Line where
  inbound := [7, 0xAA] ++ Message.ping.frame
  grant n := 3 * (n % 2)

theorem frame_after_noise_hesitant :
  (hesitant.Delivers ∧ Unmarked [7, 0xAA] ∧ IsFrame Message.ping.frame .ping ∧
    hesitant.inbound = [7, 0xAA] ++ Message.ping.frame) ∧
    ∃ n, Ends n ⟨hesitant, {}⟩ ∧ (receives (n + 1) ⟨hesitant, {}⟩).reduceOption = [.ping]
  := by
  have hl : hesitant.Delivers := by
    refine ⟨rfl, fun n => ⟨2 * n + 1, by omega, ?_⟩⟩
    show 0 < 3 * ((2 * n + 1) % 2)
    omega
  have hnoise : Unmarked [7, 0xAA] := by decide
  have hframe : IsFrame Message.ping.frame .ping := isFrame_frame .ping
  refine ⟨⟨hl, hnoise, hframe, rfl⟩, ?_⟩
  obtain ⟨hreceived, hshort, -⟩ := frame_after_noise hl hnoise hframe rfl
  obtain ⟨⟨n, hn⟩, hall⟩ := hreceived (hshort (by decide))
  exact ⟨n, hn, hall n hn⟩

/-- Noise after which a buffer has room for one more byte costs the ping behind it. -/
theorem noise_costs_frame :
  let noise := List.replicate 1023 0
  let l : Line := { inbound := noise ++ Message.ping.frame }
  (Unmarked noise ∧ IsFrame Message.ping.frame .ping ∧ l.Reliable) ∧
    Ends 0 ⟨l, {}⟩ ∧ (receives 1 ⟨l, {}⟩).reduceOption = []
  := by
  intro noise l
  refine ⟨⟨?_, isFrame_frame .ping, rfl, fun _ => Nat.succ_pos 127⟩, ?_, ?_⟩
  · decide +kernel
  · decide +kernel
  · decide +kernel

end Bridge

end ModelCar.Link
