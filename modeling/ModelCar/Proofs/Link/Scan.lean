import ModelCar.Link.Receiver
import ModelCar.Proofs.Link.Reading

/-!
# Receiving a stream

`scan` reads a whole stream of bytes from its beginning.  A receiver gets the same stream
in pieces and throws bytes away before it has seen the next piece; whatever it throws
away, the scanner would have passed over as well.  So the messages do not depend on how
the stream was cut, as long as a piece never fills the buffer.
-/

namespace ModelCar.Link

/-- The messages in a stream of bytes.  Behind a frame the reading goes on, after bytes
that are no frame it goes on one byte further, and a frame that is not complete ends
it. -/
def scan (bytes : List UInt8) : List Message :=
  match _h : Message.read bytes with
  | .ok (m, n) => m :: scan (bytes.drop n)
  | .error e => if _he : e = .insufficientData then [] else scan (bytes.drop 1)
termination_by bytes.length
decreasing_by
  · have := Message.pos_of_read _h
    obtain ⟨_, -, -, -, _, -⟩ := Message.frame_of_read _h
    rw [List.length_drop]
    omega
  · have hne : bytes ≠ [] := by
      rintro rfl
      cases _h
      contradiction
    have := List.length_pos_iff.mpr hne
    rw [List.length_drop]
    omega

theorem scan_of_ok {bytes : List UInt8} {m : Message} {n : Nat}
    (h : Message.read bytes = .ok (m, n)) :
  scan bytes = m :: scan (bytes.drop n)
  := by
  rw [scan]
  split
  · rename_i h'
    rw [h] at h'
    cases h'
    rfl
  · simp_all

theorem scan_of_incomplete {bytes : List UInt8}
    (h : Message.read bytes = .error .insufficientData) :
  scan bytes = []
  := by
  rw [scan]
  split
  · simp_all
  · simp_all

theorem scan_of_refused {bytes : List UInt8} {e : FrameError}
    (h : Message.read bytes = .error e) (he : e ≠ .insufficientData) :
  scan bytes = scan (bytes.drop 1)
  := by
  rw [scan]
  split
  · simp_all
  · simp_all

theorem scan_of_short {bytes : List UInt8} (h : bytes.length < 4) :
  scan bytes = []
  := scan_of_incomplete (Message.read_of_error (Header.read_of_short h))

/-! ### Bytes before a marker -/

/-- A first byte with which no marker begins may be left out. -/
theorem scan_cons {byte : UInt8} {bytes : List UInt8}
    (h : markerOffset? (byte :: bytes) ≠ some 0) :
  scan (byte :: bytes) = scan bytes
  := by
  by_cases hlen : (byte :: bytes).length < 4
  · rw [scan_of_short hlen, scan_of_short (Nat.lt_of_succ_lt hlen)]
  · have hr := Header.read_of_not_marker h (Nat.le_of_not_lt hlen)
    apply scan_of_refused (Message.read_of_error hr)
    decide

theorem markerOffset?_cons_eq_zero {byte : UInt8} {bytes : List UInt8} :
  markerOffset? (byte :: bytes) = some 0 ↔ byte = 0xAA ∧ bytes.head? = some 0x55
  := by
  constructor
  · intro h
    unfold markerOffset? at h
    split at h
    · rename_i heq
      cases heq
      exact ⟨rfl, rfl⟩
    · contradiction
    · simp at h
  · rintro ⟨rfl, hhead⟩
    cases bytes with
    | nil => cases hhead
    | cons second rest =>
        cases hhead
        rfl

theorem markerOffset?_cons {byte : UInt8} {bytes : List UInt8}
    (h : markerOffset? (byte :: bytes) ≠ some 0) :
  markerOffset? (byte :: bytes) = (markerOffset? bytes).map (· + 1)
  := by
  conv_lhs => unfold markerOffset?
  split
  · rename_i heq
    cases heq
    exact absurd rfl h
  · contradiction
  · rename_i heq
    cases heq
    rfl

/-- Whether a marker begins at a byte can be seen from the next one. -/
theorem markerOffset?_cons_append {byte : UInt8} {bytes : List UInt8} (more : List UInt8)
    (hne : bytes ≠ []) (h : markerOffset? (byte :: bytes) ≠ some 0) :
  markerOffset? (byte :: (bytes ++ more)) ≠ some 0
  := by
  rw [ne_eq, markerOffset?_cons_eq_zero] at h ⊢
  rwa [List.head?_append_of_ne_nil _ hne]

/-- The bytes before a marker may be left out. -/
theorem scan_drop_of_marker {bytes : List UInt8} {n : Nat} (h : markerOffset? bytes = some n)
    (more : List UInt8) :
  scan (bytes ++ more) = scan (bytes.drop n ++ more)
  := by
  induction bytes generalizing n with
  | nil => cases h
  | cons byte bytes ih =>
      cases n with
      | zero => rfl
      | succ n =>
          have hzero : markerOffset? (byte :: bytes) ≠ some 0 := by
            rw [h]
            simp
          have hrest : markerOffset? bytes = some n := by
            rw [markerOffset?_cons hzero] at h
            simpa using h
          have hne : bytes ≠ [] := by
            rintro rfl
            cases hrest
          rw [List.cons_append, scan_cons (markerOffset?_cons_append more hne hzero),
            List.drop_succ_cons, ih hrest]

/-- Of bytes without a marker only a last one that may begin a marker matters. -/
theorem scan_of_no_marker {bytes : List UInt8} (h : markerOffset? bytes = none)
    (more : List UInt8) :
  scan (bytes ++ more)
    = scan ((if bytes.getLast? = some 0xAA then [0xAA] else []) ++ more)
  := by
  induction bytes with
  | nil => rfl
  | cons byte bytes ih =>
      have hzero : markerOffset? (byte :: bytes) ≠ some 0 := by
        rw [h]
        simp
      cases bytes with
      | nil =>
          by_cases hb : byte = 0xAA
          · simp [hb]
          · have hskip : markerOffset? (byte :: more) ≠ some 0 := by
              rw [ne_eq, markerOffset?_cons_eq_zero]
              exact fun hm => hb hm.1
            simp only [List.singleton_append, List.getLast?_singleton, Option.some.injEq, hb,
              if_false, List.nil_append]
            exact scan_cons hskip
      | cons second rest =>
          have hrest : markerOffset? (second :: rest) = none := by
            rw [markerOffset?_cons hzero] at h
            simpa using h
          rw [List.cons_append,
            scan_cons (markerOffset?_cons_append more (List.cons_ne_nil _ _) hzero), ih hrest,
            List.getLast?_cons_cons]

namespace Receiver

variable {r : Receiver}

/-! ### What the receiver throws away -/

/-- Aligning a buffer that is not full throws nothing away that matters. -/
theorem scan_align (h : ¬ r.isFull) (more : List UInt8) :
  scan (r.align.bytes ++ more) = scan (r.bytes ++ more)
  := by
  unfold align
  split
  · rename_i n hn
    rw [bytes_drop, scan_drop_of_marker hn]
  · rename_i hn
    rw [if_neg h, scan_of_no_marker hn]
    split
    · rename_i hlast
      obtain ⟨front, hfront⟩ := List.getLast?_eq_some_iff.mp hlast
      simp [hfront]
    · rfl

/-- Whether a frame fits into the buffer does not matter if the longest one does. -/
theorem front_eq (h : longestFrame ≤ r.capacity) :
  r.front = match Message.read r.bytes with
    | .ok (m, n) => .message m n
    | .error .insufficientData => .incomplete
    | .error _ => .noise
  := by
  unfold front
  cases hr : Message.read r.bytes with
  | ok result => rfl
  | error e =>
      cases e with
      | insufficientData =>
          have hover : r.isOversized = false := by
            unfold isOversized
            cases hh : Header.read r.bytes with
            | error _ => rfl
            | ok header =>
                have := Header.frameLength_le_of_incomplete hh hr
                exact decide_eq_false (by omega)
          simp only [hover, Bool.false_eq_true, if_false]
      | _ => rfl

theorem scan_of_noise (h : longestFrame ≤ r.capacity) (hf : r.front = .noise)
    (more : List UInt8) :
  scan (r.bytes ++ more) = scan ((r.drop 1).bytes ++ more)
  := by
  rw [front_eq h] at hf
  split at hf
  · cases hf
  · cases hf
  · rename_i e he hr
    have hd : Decided (Message.read r.bytes) := by
      rw [hr]
      simpa [Decided] using he
    have hne : r.bytes ≠ [] := by
      intro hnil
      exact front_ne_noise_of_empty hnil (by rw [front_eq h, hr]; simp)
    have hpos := List.length_pos_iff.mpr hne
    rw [scan_of_refused (by rw [Message.read_append hd, hr]) (by simpa using he), bytes_drop,
      List.drop_append_of_le_length hpos]

theorem scan_of_message (h : longestFrame ≤ r.capacity) {m : Message} {n : Nat}
    (hf : r.front = .message m n) (more : List UInt8) :
  scan (r.bytes ++ more) = m :: scan ((r.drop n).bytes ++ more)
  := by
  rw [front_eq h] at hf
  split at hf
  · rename_i hr
    cases hf
    have hd : Decided (Message.read r.bytes) := by
      rw [hr]
      apply decided_ok
    obtain ⟨_, -, -, -, hlen, -⟩ := Message.frame_of_read hr
    rw [scan_of_ok (by rw [Message.read_append hd, hr]), bytes_drop,
      List.drop_append_of_le_length hlen]
  · cases hf
  · cases hf

theorem read_of_incomplete (h : longestFrame ≤ r.capacity) (hf : r.front = .incomplete) :
  Message.read r.bytes = .error .insufficientData
  := by
  rw [front_eq h] at hf
  split at hf
  · cases hf
  · assumption
  · cases hf

/-! ### Taking messages out -/

@[simp]
theorem capacity_align (r : Receiver) :
  r.align.capacity = r.capacity
  := by
  unfold align
  split
  · rfl
  · split
    · rfl
    · split <;> rfl

/-- A buffer with no more bytes in it than in one that is not full is not full either. -/
theorem not_isFull_of_le {s : Receiver} (h : ¬ r.isFull) (hc : s.capacity = r.capacity)
    (hlen : s.bytes.length ≤ r.bytes.length) :
  ¬ s.isFull
  := by
  simp only [isFull, decide_eq_true_eq, not_le] at h ⊢
  omega

theorem next?_eq (r : Receiver) :
  r.next? = match r.align.front with
    | .message m n => (some m, r.align.drop n)
    | .incomplete => (none, r.align)
    | .noise => (r.align.drop 1).next?
  := by
  rw [next?]
  split <;> simp_all

/-- What taking out the next message does to a buffer, as far as the scanner can see. -/
structure Taken (r : Receiver) (result : Option Message × Receiver) : Prop where
  /-- It is one step of the scanner, whatever bytes come later. -/
  scan_eq : ∀ more,
    scan (r.bytes ++ more) = result.1.toList ++ scan (result.2.bytes ++ more)
  /-- When there is no message, the scanner finds none either. -/
  scan_eq_nil : result.1 = none → scan result.2.bytes = []
  capacity_eq : result.2.capacity = r.capacity
  length_le : result.2.bytes.length ≤ r.bytes.length

/-- Taking out the next message is one step of the scanner. -/
theorem taken_next? (h : longestFrame ≤ r.capacity) (hfull : ¬ r.isFull) :
  Taken r r.next?
  := by
  have hcap : longestFrame ≤ r.align.capacity := by rwa [capacity_align]
  have hlen := r.length_align_le
  fun_induction next? r with
  | case1 r m n hf =>
      constructor
      · intro more
        rw [← scan_align hfull, scan_of_message hcap hf]
        rfl
      · intro hnone
        cases hnone
      · exact r.capacity_align
      · rw [bytes_drop, List.length_drop]
        omega
  | case2 r hf =>
      constructor
      · intro more
        rw [← scan_align hfull]
        rfl
      · intro _
        exact scan_of_incomplete (read_of_incomplete hcap hf)
      · exact r.capacity_align
      · exact hlen
  | case3 r hf ih =>
      have hdrop : (r.align.drop 1).bytes.length ≤ r.bytes.length := by
        rw [bytes_drop, List.length_drop]
        omega
      have ht := ih hcap (not_isFull_of_le hfull r.capacity_align hdrop)
        (by rwa [capacity_align]) (length_align_le _)
      constructor
      · intro more
        rw [← scan_align hfull, scan_of_noise hcap hf, ht.scan_eq]
      · exact ht.scan_eq_nil
      · exact ht.capacity_eq.trans r.capacity_align
      · exact ht.length_le.trans hdrop

/-- Taking out all messages finds what the scanner finds, and leaves bytes in which it
finds nothing before more of them come. -/
theorem scan_drain (h : longestFrame ≤ r.capacity) (hfull : ¬ r.isFull)
    (more : List UInt8) :
  scan (r.bytes ++ more) = r.drain.1 ++ scan (r.drain.2.bytes ++ more) ∧
    scan r.drain.2.bytes = [] ∧ r.drain.2.capacity = r.capacity
  := by
  have ht := taken_next? h hfull
  fun_induction drain r with
  | case1 r s hn =>
      rw [hn] at ht
      exact ⟨ht.scan_eq more, ht.scan_eq_nil rfl, ht.capacity_eq⟩
  | case2 r m s hn ms last hlast ih =>
      rw [hn] at ht
      have hcap : longestFrame ≤ s.capacity := by rwa [ht.capacity_eq]
      have hs : ¬ s.isFull := not_isFull_of_le hfull ht.capacity_eq ht.length_le
      obtain ⟨hscan, hnil, hc⟩ := ih hcap hs (taken_next? hcap hs)
      rw [hlast] at hscan hnil hc
      refine ⟨?_, hnil, hc.trans ht.capacity_eq⟩
      rw [ht.scan_eq more, hscan]
      rfl

/-! ### Chunks -/

/-- The messages that a receiver gives out when it gets bytes in chunks and all messages
are taken out after each of them. -/
def absorb (r : Receiver) : List (List UInt8) → List Message
  | [] => []
  | chunk :: chunks => (r.extend chunk).drain.1 ++ (r.extend chunk).drain.2.absorb chunks

/-- Every chunk is shorter than the space that is free when it comes. -/
def Accommodates (r : Receiver) : List (List UInt8) → Prop
  | [] => True
  | chunk :: chunks =>
    chunk.length < r.free ∧ (r.extend chunk).drain.2.Accommodates chunks

instance decidableAccommodates (r : Receiver) :
    (chunks : List (List UInt8)) → Decidable (r.Accommodates chunks)
  | [] => .isTrue trivial
  | chunk :: chunks =>
    have := (r.extend chunk).drain.2.decidableAccommodates chunks
    inferInstanceAs (Decidable (chunk.length < r.free ∧ _))

theorem extend_of_lt {chunk : List UInt8} (h : chunk.length < r.free) :
  (r.extend chunk).bytes = r.bytes ++ chunk ∧ ¬ (r.extend chunk).isFull
  := by
  have hbytes : (r.extend chunk).bytes = r.bytes ++ chunk := by
    rw [bytes_extend, List.take_of_length_le h.le]
  use hbytes
  simp only [isFull, hbytes, List.length_append, decide_eq_true_eq, not_le]
  simp only [free] at h
  simp only [extend]
  omega

theorem absorb_eq_scan (h : longestFrame ≤ r.capacity) (hnil : scan r.bytes = [])
    {chunks : List (List UInt8)} (hc : r.Accommodates chunks) :
  r.absorb chunks = scan (r.bytes ++ chunks.flatten)
  := by
  induction chunks generalizing r with
  | nil => simp [absorb, hnil]
  | cons chunk chunks ih =>
      obtain ⟨hfree, hc⟩ := hc
      obtain ⟨hbytes, hfull⟩ := extend_of_lt hfree
      obtain ⟨hscan, hrest, hcap⟩ :=
        scan_drain (r := r.extend chunk) h hfull chunks.flatten
      rw [absorb, ih (by rwa [hcap]) hrest hc, ← hscan, hbytes, List.flatten_cons,
        List.append_assoc]

/-- Receiving a stream in chunks gives the messages that are in the stream. -/
theorem stream_received {capacity : Nat} (h : 208 ≤ capacity) (stream : List UInt8)
    (chunks : List (List UInt8)) (hcut : chunks.flatten = stream)
    (hc : ({ capacity } : Receiver).Accommodates chunks) :
  ({ capacity } : Receiver).absorb chunks = scan stream
  := by
  rw [← hcut]
  exact absorb_eq_scan (r := { capacity }) h (scan_of_short (Nat.zero_lt_succ _)) hc

/-- A ping between bytes that are no frame, cut within its marker and within its length. -/
def noisyPing : List (List UInt8) :=
  [[7, 0xAA, 0xAA], [0x55, 1, 3, 0], [0, 241, 216, 0xAA]]

theorem noisy_ping_received :
  208 ≤ 208 ∧ ({ capacity := 208 } : Receiver).Accommodates noisyPing ∧
    ({ capacity := 208 } : Receiver).absorb noisyPing = scan noisyPing.flatten ∧
    scan noisyPing.flatten = [.ping]
  := by
  have hc : ({ capacity := 208 } : Receiver).Accommodates noisyPing := by decide +kernel
  refine ⟨le_rfl, hc, ?_, ?_⟩
  · exact stream_received le_rfl noisyPing.flatten noisyPing rfl hc
  · decide +kernel

end Receiver

end ModelCar.Link
