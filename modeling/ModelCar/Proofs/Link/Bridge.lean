import ModelCar.Proofs.Link.Message
import ModelCar.Proofs.Link.Scan

/-!
# A link without losses

Two bridges, and between them a line that loses nothing.  Whatever one bridge sends, the
other one receives in the same order, one message per call, however few bytes a read
gives and however much longer than the receive buffer the stream is.  The invariant is
that the bytes in the buffer and those at the line together are whole frames, so the
buffer always begins with a marker and is never aligned away.
-/

namespace ModelCar.Link

/-! ### The line -/

namespace Line

/-- Reading meets no fault, and after any number of reads there is one that gives some
bytes if there are any. -/
structure Delivers (l : Line) : Prop where
  readFault_eq : l.readFault = none
  grant_pos : ∀ n, ∃ k ≥ n, 0 < l.grant k

/-- Reading meets no fault and gives some bytes if there are any. -/
structure Reliable (l : Line) : Prop where
  readFault_eq : l.readFault = none
  grant_pos : ∀ n, 0 < l.grant n

variable {l m : Line} {n : Nat} {bytes : List UInt8}

theorem Reliable.delivers (h : l.Reliable) :
  l.Delivers
  := ⟨h.readFault_eq, fun n => ⟨n, le_rfl, h.grant_pos n⟩⟩

theorem Delivers.read_eq (h : l.Delivers) (n : Nat) :
  l.read n = .ok (l.inbound.take (min n (l.grant l.reads)),
    { l with inbound := l.inbound.drop (min n (l.grant l.reads)), reads := l.reads + 1 })
  := by rw [read, h.readFault_eq]

theorem Delivers.read_ne_error (h : l.Delivers) (e : LinkError) :
  l.read n ≠ .error e
  := by
  rw [h.read_eq]
  intro he
  cases he

theorem Delivers.of_read (h : l.Delivers) (hr : l.read n = .ok (bytes, m)) :
  m.Delivers
  := by
  rw [h.read_eq] at hr
  cases hr
  exact ⟨h.readFault_eq, h.grant_pos⟩

theorem Reliable.of_read (h : l.Reliable) (hr : l.read n = .ok (bytes, m)) :
  m.Reliable
  := by
  rw [h.delivers.read_eq] at hr
  cases hr
  exact ⟨h.readFault_eq, h.grant_pos⟩

/-- A read that gives no bytes leaves the line as it is, and was granted none or there are
none. -/
theorem Delivers.eq_of_read_nil (h : l.Delivers) (hn : 0 < n) (hr : l.read n = .ok ([], m)) :
  m = { l with reads := l.reads + 1 } ∧ (l.grant l.reads = 0 ∨ l.inbound = [])
  := by
  have hin := inbound_of_read hr
  rw [h.read_eq] at hr
  obtain ⟨htake, rfl⟩ := Prod.mk.inj (Except.ok.inj hr)
  constructor
  · have hdrop : l.inbound.drop (min n (l.grant l.reads)) = l.inbound := hin
    rw [hdrop]
  · obtain hzero | hnil := List.take_eq_nil_iff.mp htake
    · left
      omega
    · exact .inr hnil

theorem length_of_read (hr : l.read n = .ok (bytes, m)) :
  bytes.length ≤ n
  := by
  unfold read at hr
  split at hr
  · cases hr
  · cases hr
    rw [List.length_take]
    omega

end Line

/-! ### A buffer that begins with a marker -/

theorem markerOffset?_of_append {bytes more : List UInt8} (hlen : 2 ≤ bytes.length)
    (h : markerOffset? (bytes ++ more) = some 0) :
  markerOffset? bytes = some 0
  := by
  match bytes with
  | [] => simp at hlen
  | [_] => simp at hlen
  | first :: second :: rest =>
      rw [List.cons_append, List.cons_append, markerOffset?_cons_eq_zero] at h
      exact markerOffset?_cons_eq_zero.mpr h

theorem Receiver.align_of_marker {r : Receiver} (h : markerOffset? r.bytes = some 0) :
  r.align = r
  := by
  rw [align, h]
  rfl

theorem Message.markerOffset?_frame (m : Message) (rest : List UInt8) :
  markerOffset? (m.frame ++ rest) = some 0
  := rfl

namespace Bridge

/-- The bytes that wait in the receive buffer and at the line. -/
def stream (b : Bridge) : List UInt8 :=
  b.receiver.bytes ++ b.line.inbound

theorem room_pos {r : Receiver} (h : ¬ r.isFull) :
  0 < min r.free readSize
  := by
  simp only [Receiver.isFull, decide_eq_true_eq] at h
  simp only [Receiver.free, readSize]
  omega

/-- The bytes of a read are those at the line that come next, and all of them fit into the
buffer. -/
theorem stream_of_read {l m : Line} {r : Receiver} {bytes : List UInt8}
    (h : l.read (min r.free readSize) = .ok (bytes, m)) :
  (⟨m, r.extend bytes⟩ : Bridge).stream = r.bytes ++ l.inbound
  := by
  have hlen : bytes.length ≤ r.free := (Line.length_of_read h).trans (min_le_left _ _)
  rw [stream, Receiver.bytes_extend, List.take_of_length_le hlen, List.append_assoc,
    Line.inbound_of_read h]

theorem makeRoom_of_marker {r : Receiver} {more : List UInt8} (hc : 2 ≤ r.capacity)
    (h : markerOffset? (r.bytes ++ more) = some 0) :
  makeRoom r = r
  := by
  unfold makeRoom
  split
  · rename_i hfull
    have hlen : 2 ≤ r.bytes.length := hc.trans (of_decide_eq_true hfull)
    exact Receiver.align_of_marker (markerOffset?_of_append hlen h)
  · rfl

/-- Pumping reads on until the buffer is full or has got everything. -/
theorem full_or_all_pump {b : Bridge} (hl : b.line.Reliable) :
  b.pump.2.receiver.isFull ∨ b.pump.2.line.inbound = []
  := by
  fun_induction pump b with
  | case1 b receiver hfull => exact .inl hfull
  | case2 b receiver _ e hread => exact absurd hread (hl.delivers.read_ne_error e)
  | case3 b receiver hfree line hread =>
      right
      obtain ⟨rfl, hzero | hnil⟩ := hl.delivers.eq_of_read_nil (room_pos hfree) hread
      · have := hl.grant_pos b.line.reads
        omega
      · exact hnil
  | case4 b receiver _ byte bytes line hread result after hafter ih =>
      have hall := ih (hl.of_read hread)
      rwa [hafter] at hall

theorem capacity_makeRoom (r : Receiver) :
  (makeRoom r).capacity = r.capacity
  := by
  unfold makeRoom
  split
  · exact r.capacity_align
  · rfl

theorem capacity_pump (b : Bridge) :
  b.pump.2.receiver.capacity = b.receiver.capacity
  := by
  fun_induction pump b with
  | case1 b receiver => exact capacity_makeRoom _
  | case2 b receiver => exact capacity_makeRoom _
  | case3 b receiver => exact capacity_makeRoom _
  | case4 b receiver _ byte bytes line hread result after hafter ih =>
      rw [hafter] at ih
      exact ih.trans (capacity_makeRoom _)

/-- If the stream begins with a marker, pumping loses nothing. -/
theorem stream_pump {b : Bridge} (hl : b.line.Delivers) (hc : 2 ≤ b.receiver.capacity)
    (hb : markerOffset? b.stream = some 0) :
  b.pump.2.stream = b.stream
  := by
  fun_induction pump b with
  | case1 b receiver hfull =>
      have hr : receiver = b.receiver := makeRoom_of_marker hc hb
      rw [hr]
  | case2 b receiver _ e hread => exact absurd hread (hl.read_ne_error e)
  | case3 b receiver _ line hread =>
      have hr : receiver = b.receiver := makeRoom_of_marker hc hb
      have hin := Line.inbound_of_read hread
      rw [hr, stream, stream, ← hin, List.nil_append]
  | case4 b receiver _ byte bytes line hread result after hafter ih =>
      have hr : receiver = b.receiver := makeRoom_of_marker hc hb
      have hstream : (⟨line, receiver.extend (byte :: bytes)⟩ : Bridge).stream = b.stream := by
        rw [stream_of_read hread, hr]
        rfl
      have hrest := ih (hl.of_read hread) (hr ▸ hc) (by rwa [hstream])
      rw [hafter] at hrest
      exact hrest.trans hstream

/-- What every read preserves, pumping preserves. -/
theorem line_pump {P : Line → Prop}
    (hread : ∀ {l m : Line} {n : Nat} {bytes : List UInt8},
      P l → l.read n = .ok (bytes, m) → P m)
    {b : Bridge} (h : P b.line) :
  P b.pump.2.line
  := by
  fun_induction pump b with
  | case1 b receiver => exact h
  | case2 b receiver => exact h
  | case3 b receiver _ line hr => exact hread h hr
  | case4 b receiver _ byte bytes line hr result after hafter ih =>
      have hrest := ih (hread h hr)
      rwa [hafter] at hrest

/-! ### Receiving frames -/

/-- A bridge that reads reliably, with a buffer for the longest frame. -/
structure Ready (b : Bridge) : Prop where
  reliable : b.line.Reliable
  longestFrame_le : longestFrame ≤ b.receiver.capacity

theorem receive_eq (b : Bridge) :
  b.receive.message = b.pump.2.receiver.next?.1 ∧
    b.receive.bridge = { b.pump.2 with receiver := b.pump.2.receiver.next?.2 }
  := ⟨rfl, rfl⟩

/-- A frame in front of the buffer is taken out. -/
theorem next?_of_frame {r : Receiver} {m : Message} {rest : List UInt8}
    (h : r.bytes = m.frame ++ rest) :
  r.next? = (some m.delivered, r.drop m.frame.length)
  := by
  have halign : r.align = r := by
    apply Receiver.align_of_marker
    rw [h, Message.markerOffset?_frame]
  have hfront : r.align.front = .message m.delivered m.frame.length := by
    rw [halign, Receiver.front, h, Message.read_frame]
  rw [Receiver.next?_eq, hfront, halign]

/-- If the stream begins with the frame of a message, the next call gives this
message. -/
theorem receive_frame {b : Bridge} (h : b.Ready) {m : Message} {rest : List UInt8}
    (hs : b.stream = m.frame ++ rest) :
  b.receive.message = some m.delivered ∧ b.receive.bridge.Ready ∧
    b.receive.bridge.stream = rest
  := by
  have hcap : longestFrame ≤ b.pump.2.receiver.capacity := by
    rw [capacity_pump]
    exact h.longestFrame_le
  have hstream : b.pump.2.receiver.bytes ++ b.pump.2.line.inbound = m.frame ++ rest := by
    rw [← hs]
    apply stream_pump h.reliable.delivers
    · exact (show 2 ≤ longestFrame by decide).trans h.longestFrame_le
    · rw [hs, m.markerOffset?_frame]
  have hlen : m.frame.length ≤ b.pump.2.receiver.bytes.length := by
    have := m.length_frame_le
    obtain hfull | hnil := full_or_all_pump h.reliable
    · have : b.pump.2.receiver.capacity ≤ _ := of_decide_eq_true hfull
      omega
    · rw [hnil, List.append_nil] at hstream
      rw [hstream, List.length_append]
      omega
  obtain ⟨more, hmore⟩ := List.prefix_of_prefix_length_le (List.prefix_append m.frame rest)
    ⟨_, hstream⟩ hlen
  obtain ⟨hmessage, hbridge⟩ := b.receive_eq
  rw [next?_of_frame hmore.symm] at hmessage hbridge
  refine ⟨hmessage, ?_, ?_⟩
  · rw [hbridge]
    exact ⟨line_pump Line.Reliable.of_read h.reliable, hcap⟩
  · rw [hbridge, stream, Receiver.bytes_drop, ← hmore, List.drop_left]
    rw [← hmore, List.append_assoc] at hstream
    exact List.append_cancel_left hstream

/-- Nothing is taken out of an empty buffer, and it stays empty. -/
theorem next?_of_empty {r : Receiver} (h : r.bytes = []) :
  r.next? = (none, r.align) ∧ r.align.bytes = []
  := by
  have halign : r.align.bytes = [] := by
    have := r.length_align_le
    rwa [h, List.length_nil, Nat.le_zero, List.length_eq_zero_iff] at this
  have hfront : r.align.front = .incomplete := by
    simp [Receiver.front, Receiver.isOversized, Message.read, Header.read, halign, bind,
      Except.bind]
  exact ⟨by rw [Receiver.next?_eq, hfront], halign⟩

/-- A bridge for which no bytes are left. -/
structure Idle (b : Bridge) : Prop where
  delivers : b.line.Delivers
  capacity_pos : 0 < b.receiver.capacity
  stream_eq : b.stream = []

theorem pump_of_idle {b : Bridge} (h : b.Idle) :
  b.pump.2 = ⟨{ b.line with reads := b.line.reads + 1 }, b.receiver⟩
  := by
  obtain ⟨hl, hc, hs⟩ := h
  obtain ⟨hbytes, hin⟩ := List.append_eq_nil_iff.mp hs
  have hempty : ¬ b.receiver.isFull := by
    simp only [Receiver.isFull, hbytes, List.length_nil, decide_eq_true_eq, not_le]
    exact hc
  have hroom : makeRoom b.receiver = b.receiver := if_neg hempty
  fun_cases pump b with
  | case1 receiver hfull => exact absurd (hroom ▸ hfull) hempty
  | case2 receiver _ e hread => exact absurd hread (hl.read_ne_error e)
  | case3 receiver hfree line hread =>
      obtain ⟨rfl, -⟩ := hl.eq_of_read_nil (room_pos hfree) hread
      show Bridge.mk _ (makeRoom b.receiver) = _
      rw [hroom]
  | case4 receiver _ byte bytes line hread =>
      rw [hl.read_eq, hin, List.take_nil] at hread
      cases hread

/-- If nothing waits, nothing is received, and it stays so. -/
theorem receive_of_idle {b : Bridge} (h : b.Idle) :
  b.receive.message = none ∧ b.receive.bridge.Idle
  := by
  obtain ⟨hbytes, hin⟩ := List.append_eq_nil_iff.mp h.stream_eq
  obtain ⟨hnext, hempty⟩ := next?_of_empty hbytes
  obtain ⟨hmessage, hbridge⟩ := b.receive_eq
  rw [hmessage, hbridge, pump_of_idle h, hnext]
  refine ⟨rfl, ⟨h.delivers.readFault_eq, h.delivers.grant_pos⟩, ?_, ?_⟩
  · rw [Receiver.capacity_align]
    exact h.capacity_pos
  · rw [stream, hempty, List.nil_append]
    exact hin

/-! ### A whole conversation -/

/-- What the next calls of `receive` give. -/
def receives : Nat → Bridge → List (Option Message)
  | 0, _ => []
  | n + 1, b => b.receive.message :: receives n b.receive.bridge

theorem receives_succ (n : Nat) (b : Bridge) :
  receives (n + 1) b = b.receive.message :: receives n b.receive.bridge
  := rfl

/-- Sends messages one after the other, up to the first that fails. -/
def sendAll (b : Bridge) (ms : List Message) : Except LinkError Bridge :=
  ms.foldlM send b

theorem receives_of_idle (n : Nat) {b : Bridge} (h : b.Idle) :
  receives n b = List.replicate n none
  := by
  induction n generalizing b with
  | zero => rfl
  | succ n ih =>
      obtain ⟨hnone, hidle⟩ := receive_of_idle h
      rw [receives_succ, hnone, ih hidle, List.replicate_succ]

/-- Frames that follow one another are received one per call, and then nothing. -/
theorem receives_frames (ms : List Message) (n : Nat) {b : Bridge} (h : b.Ready)
    (hs : b.stream = ms.flatMap Message.frame) :
  receives (ms.length + n) b = ms.map (fun m => some m.delivered) ++ List.replicate n none
  := by
  induction ms generalizing b with
  | nil =>
      rw [List.length_nil, Nat.zero_add]
      have hcap : 0 < b.receiver.capacity := lt_of_lt_of_le (by decide) h.longestFrame_le
      exact receives_of_idle n ⟨h.reliable.delivers, hcap, hs⟩
  | cons m ms ih =>
      rw [List.flatMap_cons] at hs
      obtain ⟨hmessage, hready, hrest⟩ := receive_frame h hs
      rw [List.length_cons, Nat.add_right_comm, receives_succ, hmessage, ih hready hrest,
        List.map_cons, List.cons_append]

/-- Every message fits into the buffer for frames to be sent, so its frame is written to
the line. -/
theorem send_eq (b : Bridge) (m : Message) :
  b.send m = (fun line => { b with line }) <$> b.line.write m.frame
  := by
  obtain ⟨written, hwrite, hframe⟩ := m.write_send
  unfold send
  rw [hwrite, ← hframe]

theorem send_ne_frame_error (b : Bridge) (m : Message) (e : FrameError) :
  b.send m ≠ .error (.frame e)
  := by
  rw [send_eq, Line.write]
  split
  · intro h
    cases h
  · intro h
    cases h

/-- A message that is sent without a fault is written to the line as its frame. -/
theorem send_of_faultless {b : Bridge} (h : b.line.writeFault = none) (m : Message) :
  b.send m = .ok { b with line.outbound := b.line.outbound ++ m.frame }
  := by
  have hw : b.line.write m.frame = .ok { b.line with outbound := b.line.outbound ++ m.frame } := by
    unfold Line.write
    split
    · simp_all
    · rfl
  rw [send_eq, hw]
  rfl

theorem sendAll_of_faultless {b : Bridge} (h : b.line.writeFault = none) (ms : List Message) :
  b.sendAll ms
    = .ok { b with line.outbound := b.line.outbound ++ ms.flatMap Message.frame }
  := by
  induction ms generalizing b with
  | nil =>
      rw [List.flatMap_nil, List.append_nil]
      rfl
  | cons m ms ih =>
      rw [sendAll, List.foldlM_cons, send_of_faultless h]
      have hrest := ih (b := { b with line.outbound := b.line.outbound ++ m.frame }) h
      rw [List.append_assoc, ← List.flatMap_cons] at hrest
      exact hrest

/-- No message is too long to be sent.  Whatever messages a bridge sends over a line that
loses nothing, a bridge with an empty buffer at the other end receives each of them, one
per call and in the same order, and then nothing. -/
theorem link_lossless (a : Bridge) (ms : List Message) (hw : a.line.writeFault = none)
    (hout : a.line.outbound = []) :
  (∀ (b : Bridge) (m : Message) (e : FrameError), b.send m ≠ .error (.frame e)) ∧
    ∃ sent, a.sendAll ms = .ok sent ∧
      ∀ l : Line, l.Reliable → l.inbound = sent.line.outbound →
        ∃ received, List.Forall₂ Message.ArrivesAs ms received ∧
          ∀ n, receives (ms.length + n) ⟨l, {}⟩
            = received.map some ++ List.replicate n none
  := by
  refine ⟨send_ne_frame_error, _, sendAll_of_faultless hw ms, ?_⟩
  intro l hl hin
  use ms.map Message.delivered
  constructor
  · rw [List.forall₂_map_right_iff]
    exact List.forall₂_same.2 fun m _ => m.arrivesAs_delivered
  · intro n
    have hready : Ready ⟨l, {}⟩ := ⟨hl, show longestFrame ≤ 1024 by decide⟩
    have hstream : stream ⟨l, {}⟩ = ms.flatMap Message.frame := by
      rw [stream, hin, hout]
      rfl
    rw [receives_frames ms n hready hstream, List.map_map]
    rfl

/-- Two messages over a line that gives three bytes per read. -/
theorem link_lossless_in_threes :
  let line : Line := { inbound := Message.ping.frame ++ (Message.log "hi").frame,
                       grant := fun _ => 3 }
  ((⟨{}, {}⟩ : Bridge).line.writeFault = none ∧
    (⟨{}, {}⟩ : Bridge).line.outbound = [] ∧ line.Reliable) ∧
    ∃ received, List.Forall₂ Message.ArrivesAs [.ping, .log "hi"] received ∧
      receives 3 ⟨line, {}⟩ = received.map some ++ [none]
  := by
  intro line
  have hline : line.Reliable := ⟨rfl, fun _ => Nat.succ_pos 2⟩
  refine ⟨⟨rfl, rfl, hline⟩, ?_⟩
  obtain ⟨-, sent, hsent, hreceived⟩ := link_lossless ⟨{}, {}⟩ [.ping, .log "hi"] rfl rfl
  rw [sendAll_of_faultless rfl] at hsent
  cases hsent
  obtain ⟨received, hall, hn⟩ := hreceived line hline (by simp [line])
  exact ⟨received, hall, hn 1⟩

end Bridge

end ModelCar.Link
