import ModelCar.Proofs.Link.Scan

/-!
# Room for more bytes

A receive buffer never gets stuck.  Whatever has been done with it, the search for a
message ends, and if it finds none then the buffer is not full: what is left is too short
to be judged, or it is the beginning of a frame that fits into the buffer.
-/

namespace ModelCar.Link

/-! ### The beginning of a frame -/

/-- A frame that has begun and is not complete.  The length, as soon as it is known, is
one that the kind allows, and the frame fits into the capacity of the buffer. -/
structure Begun (capacity : Nat) (bytes : List UInt8) : Prop where
  marked : ∃ kind : Kind, [0xAA, 0x55, 1, kind.code] <+: bytes
  incomplete : ∃ more ≠ [], ∃ header, Header.read (bytes ++ more) = .ok header ∧
    (bytes ++ more).length = header.frameLength
  fits : ∀ header, Header.read bytes = .ok header →
    header.kind.fits header.payloadLength ∧ header.frameLength ≤ capacity

/-- A beginning whose length is known is continued to a whole frame by any bytes, if they
are as many as are missing. -/
theorem Header.exists_frame {bytes : List UInt8} {header : Header}
    (h : Header.read bytes = .ok header) (hlen : bytes.length < header.frameLength) :
  ∃ more ≠ [], Header.read (bytes ++ more) = .ok header ∧
    (bytes ++ more).length = header.frameLength
  := by
  refine ⟨List.replicate (header.frameLength - bytes.length) 0, ?_, ?_, ?_⟩
  · rw [ne_eq, List.replicate_eq_nil_iff]
    omega
  · rw [Header.read_append (by rw [h]; apply decided_ok), h]
  · rw [List.length_append, List.length_replicate]
    omega

/-- A beginning whose length is not known yet is continued to a whole frame by some
bytes. -/
theorem Header.exists_frame_of_short (kind : Kind) {rest : List UInt8} (h : rest.length < 2) :
  ∃ more ≠ [], ∃ header,
    Header.read ((0xAA :: 0x55 :: 1 :: kind.code :: rest) ++ more) = .ok header ∧
    ((0xAA :: 0x55 :: 1 :: kind.code :: rest) ++ more).length = header.frameLength
  := by
  have hknown (low high : UInt8) := Header.exists_frame (Header.read_beginning kind low high [])
    (by simp only [List.length_cons, List.length_nil, frameLength, headerSize, crcSize]; omega)
  cases rest with
  | nil =>
      obtain ⟨more, -, hread, hlen⟩ := hknown 0 0
      exact ⟨0 :: 0 :: more, List.cons_ne_nil _ _, _, hread, hlen⟩
  | cons low rest =>
      cases rest with
      | nil =>
          obtain ⟨more, -, hread, hlen⟩ := hknown low 0
          exact ⟨0 :: more, List.cons_ne_nil _ _, _, hread, hlen⟩
      | cons _ _ =>
          simp only [List.length_cons] at h
          omega

namespace Receiver

variable {r : Receiver}

theorem front_eq_incomplete (h : r.front = .incomplete) :
  Message.read r.bytes = .error .insufficientData ∧
    ∀ header, Header.read r.bytes = .ok header → header.frameLength ≤ r.capacity
  := by
  unfold front at h
  split at h
  · cases h
  · rename_i hread
    use hread
    intro header hheader
    split at h
    · cases h
    · rename_i hsize
      simpa [isOversized, hheader] using hsize
  · cases h

/-- What waits for more bytes and is not too short to be judged is a frame that has begun. -/
theorem begun_of_incomplete (h : r.front = .incomplete) (hlen : 4 ≤ r.bytes.length) :
  Begun r.capacity r.bytes
  := by
  obtain ⟨hread, hcapacity⟩ := front_eq_incomplete h
  have hrefused : ∀ e, Header.read r.bytes = .error e → e = .insufficientData := by
    intro e he
    rw [Message.read_of_error he] at hread
    exact Except.error.inj hread
  obtain ⟨kind, rest, hbytes⟩ := Header.eq_of_not_refused hlen hrefused
  constructor
  · exact ⟨kind, rest, hbytes.symm⟩
  · match rest with
    | low :: high :: rest =>
        have hheader := Header.read_beginning kind low high rest
        rw [← hbytes] at hheader
        obtain ⟨more, hne, hframe⟩ :=
          Header.exists_frame hheader (Header.fits_of_incomplete hheader hread).2
        exact ⟨more, hne, _, hframe⟩
    | [] =>
        rw [hbytes]
        exact Header.exists_frame_of_short kind Nat.two_pos
    | [_] =>
        rw [hbytes]
        exact Header.exists_frame_of_short kind Nat.one_lt_two
  · intro header hheader
    exact ⟨(Header.fits_of_incomplete hheader hread).1, hcapacity header hheader⟩

end Receiver

/-- A frame that has begun leaves room for a byte that is missing. -/
theorem Begun.length_lt {capacity : Nat} {bytes : List UInt8} (h : Begun capacity bytes)
    (hc : 8 ≤ capacity) :
  bytes.length < capacity
  := by
  obtain ⟨more, hne, header, hread, hlen⟩ := h.incomplete
  have hpos := List.length_pos_iff.mpr hne
  cases hr : Header.read bytes with
  | ok known =>
      have hknown : header = known := by
        rw [Header.read_append (by rw [hr]; apply decided_ok), hr] at hread
        exact (Except.ok.inj hread).symm
      have hfits := (h.fits known hr).2
      rw [List.length_append, hknown] at hlen
      omega
  | error e =>
      obtain ⟨kind, rest, rfl⟩ := h.marked
      match rest with
      | low :: high :: rest =>
          have := Header.read_beginning kind low high rest
          simp_all
      | [] =>
          show 4 < capacity
          omega
      | [_] =>
          show 5 < capacity
          omega

namespace Receiver

/-! ### The search for a message -/

theorem align_suffix (r : Receiver) :
  r.align.bytes <:+ r.bytes
  := by
  unfold align
  split
  · apply List.drop_suffix
  · split
    · apply List.nil_suffix
    · split
      · apply List.drop_suffix
      · apply List.nil_suffix

theorem next?_suffix (r : Receiver) :
  r.next?.2.bytes <:+ r.bytes
  := by
  fun_induction next? r with
  | case1 r m n hf => exact (List.drop_suffix n _).trans r.align_suffix
  | case2 r hf => exact r.align_suffix
  | case3 r hf ih => exact ih.trans ((List.drop_suffix 1 _).trans r.align_suffix)

theorem capacity_next? (r : Receiver) :
  r.next?.2.capacity = r.capacity
  := by
  fun_induction next? r with
  | case1 r m n hf => exact r.capacity_align
  | case2 r hf => exact r.capacity_align
  | case3 r hf ih => exact ih.trans r.capacity_align

/-- Where no message is found the bytes that are left wait for more. -/
theorem front_of_next? {r : Receiver} (h : r.next?.1 = none) :
  r.next?.2.front = .incomplete
  := by
  fun_induction next? r with
  | case1 r m n hf => cases h
  | case2 r hf => exact hf
  | case3 r hf ih => exact ih h

/-- The search for a message, given up after a number of rounds; a round drops a first
byte that begins no frame. -/
def search : Nat → Receiver → Option (Option Message × Receiver)
  | 0, _ => none
  | n + 1, r =>
    match r.align.front with
    | .message m length => some (some m, r.align.drop length)
    | .incomplete => some (none, r.align)
    | .noise => search n (r.align.drop 1)

/-- A round drops a byte, so there are no more rounds than bytes, and one that ends the
search. -/
theorem search_eq {n : Nat} {r : Receiver} (h : r.bytes.length < n) :
  search n r = some r.next?
  := by
  induction n generalizing r with
  | zero => cases h
  | succ n ih =>
      rw [search, next?_eq]
      cases hf : r.align.front with
      | message m length => rfl
      | incomplete => rfl
      | noise =>
          apply ih
          have hne : r.align.bytes ≠ [] := fun he => front_ne_noise_of_empty he hf
          have hpos := List.length_pos_iff.mpr hne
          have hle := r.length_align_le
          rw [bytes_drop, List.length_drop]
          omega

/-! ### Operations -/

/-- What may be done with a receive buffer. -/
inductive Operation where
  | extend (bytes : List UInt8)
  | align
  | skip
  | consume (n : Nat)
  | next

/-- The buffer after an operation. -/
def perform (r : Receiver) : Operation → Receiver
  | .extend bytes => r.extend bytes
  | .align => r.align
  | .skip => r.drop 1
  | .consume n => r.drop n
  | .next => r.next?.2

theorem capacity_perform (r : Receiver) (o : Operation) :
  (r.perform o).capacity = r.capacity
  := by
  cases o with
  | extend bytes => rfl
  | align => exact r.capacity_align
  | skip => rfl
  | consume n => rfl
  | next => exact r.capacity_next?

/-- The buffer after some operations. -/
def performAll (r : Receiver) (operations : List Operation) : Receiver :=
  operations.foldl perform r

theorem capacity_performAll (r : Receiver) (operations : List Operation) :
  (r.performAll operations).capacity = r.capacity
  := by
  induction operations generalizing r with
  | nil => rfl
  | cons o operations ih => exact (ih (r.perform o)).trans (r.capacity_perform o)

/-- After any operations the buffer holds no more bytes than its capacity, and the search
for a message ends and leaves the last of them.  If no message is found, then what is left
is too short to be judged or a frame that has begun, and there is room for another byte. -/
theorem never_stuck {capacity : Nat} (h : 8 ≤ capacity) (operations : List Operation) :
  let r := ({ capacity } : Receiver).performAll operations
  r.bytes.length ≤ capacity ∧
    search (r.bytes.length + 1) r = some r.next? ∧
    r.next?.2.bytes <:+ r.bytes ∧
    (r.next?.1 = none →
      (r.next?.2.bytes.length < 4 ∨ Begun capacity r.next?.2.bytes) ∧
        ¬ r.next?.2.isFull ∧
        ∀ byte, (r.next?.2.extend [byte]).bytes = r.next?.2.bytes ++ [byte])
  := by
  intro r
  have hr : r.capacity = capacity := capacity_performAll _ operations
  have hs : r.next?.2.capacity = capacity := r.capacity_next?.trans hr
  refine ⟨hr ▸ r.length_le, search_eq (Nat.lt_succ_self _), r.next?_suffix, ?_⟩
  intro hnone
  have hfront := front_of_next? hnone
  have hbegun : r.next?.2.bytes.length < 4 ∨ Begun capacity r.next?.2.bytes := by
    obtain hlt | hle := Nat.lt_or_ge r.next?.2.bytes.length 4
    · exact .inl hlt
    · right
      rw [← hs]
      exact begun_of_incomplete hfront hle
  have hlt : r.next?.2.bytes.length < capacity := by
    obtain hshort | hframe := hbegun
    · omega
    · exact hframe.length_lt h
  refine ⟨hbegun, ?_, ?_⟩
  · simp only [isFull, hs, decide_eq_true_eq, not_le]
    exact hlt
  · intro byte
    rw [bytes_extend, List.take_of_length_le]
    simp only [free, hs, List.length_singleton]
    omega

/-- A buffer for eight bytes, filled with a frame of no kind and the beginning of another
frame. -/
def crowded : List Operation :=
  [.extend [7, 0xAA, 0x55, 1, 9], .skip, .extend [0xAA, 0x55, 1, 4, 0]]

theorem never_stuck_crowded :
  let r := ({ capacity := 8 } : Receiver).performAll crowded
  8 ≤ 8 ∧ r.isFull ∧ r.next?.1 = none ∧ r.next?.2.bytes = [0xAA, 0x55, 1, 4] ∧
    Begun 8 r.next?.2.bytes
  := by
  intro r
  have hnone : r.next?.1 = none := by decide +kernel
  have hrest : r.next?.2.bytes = [0xAA, 0x55, 1, 4] := by decide +kernel
  obtain ⟨-, -, -, hroom⟩ := never_stuck le_rfl crowded
  obtain ⟨hbegun, -, -⟩ := hroom hnone
  refine ⟨le_rfl, by decide +kernel, hnone, hrest, hbegun.resolve_left ?_⟩
  rw [hrest]
  decide

end Receiver

end ModelCar.Link
