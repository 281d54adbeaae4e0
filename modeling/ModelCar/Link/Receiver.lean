import ModelCar.Link.Message

/-!
# The receive buffer

A `Receiver` holds the bytes that have come in and are not yet read.  `next?` takes
the next message out of it: bytes before a marker are dropped, an incomplete frame
waits for more, and after bytes that are no frame the search goes on one byte further.
-/

namespace ModelCar.Link

/-- A buffer of received bytes. -/
structure Receiver where
  capacity : Nat := 1024
  bytes : List UInt8 := []
  length_le : bytes.length ≤ capacity := by simp

namespace Receiver

instance : Inhabited Receiver := ⟨{}⟩

/-- No byte fits in any more. -/
def isFull (r : Receiver) : Bool :=
  r.capacity ≤ r.bytes.length

/-- The number of bytes that still fit in. -/
def free (r : Receiver) : Nat :=
  r.capacity - r.bytes.length

/-- The number of the given bytes that fit in. -/
def room (r : Receiver) (bytes : List UInt8) : Nat :=
  min bytes.length r.free

/-- Appends the bytes that fit in and drops the others. -/
def extend (r : Receiver) (bytes : List UInt8) : Receiver where
  capacity := r.capacity
  bytes := r.bytes ++ bytes.take r.free
  length_le := by
    have := r.length_le
    simp [free]
    omega

/-- Removes bytes from the front. -/
def drop (n : Nat) (r : Receiver) : Receiver where
  capacity := r.capacity
  bytes := r.bytes.drop n
  length_le := by
    have := r.length_le
    simp
    omega

/-- Removes all bytes. -/
def clear (r : Receiver) : Receiver where
  capacity := r.capacity
  bytes := []
  length_le := Nat.zero_le _

@[simp]
theorem bytes_drop (n : Nat) (r : Receiver) :
  (r.drop n).bytes = r.bytes.drop n
  := rfl

@[simp]
theorem bytes_clear (r : Receiver) :
  r.clear.bytes = []
  := rfl

@[simp]
theorem bytes_extend (r : Receiver) (bytes : List UInt8) :
  (r.extend bytes).bytes = r.bytes ++ bytes.take r.free
  := rfl

/-- The buffer begins with a marker. -/
def isAligned (r : Receiver) : Bool :=
  markerOffset? r.bytes = some 0

/-- Removes the bytes before the first marker.  Without a marker nothing is kept but
a last byte that may be the first half of one, and not even that in a full buffer. -/
def align (r : Receiver) : Receiver :=
  match markerOffset? r.bytes with
  | some n => r.drop n
  | none =>
    if r.isFull then r.clear
    else if r.bytes.getLast? = some 0xAA then r.drop (r.bytes.length - 1)
    else r.clear

/-- What the beginning of the buffer turns out to be. -/
inductive Front where
  /-- A message in a frame of the given length. -/
  | message (message : Message) (length : Nat)
  /-- Bytes that may yet become a frame. -/
  | incomplete
  /-- No frame. -/
  | noise

/-- The frame at the beginning is longer than the buffer. -/
def isOversized (r : Receiver) : Bool :=
  match Header.read r.bytes with
  | .ok header => r.capacity < header.frameLength
  | .error _ => false

/-- Judges the beginning of the buffer. -/
def front (r : Receiver) : Front :=
  match Message.read r.bytes with
  | .ok (message, length) => .message message length
  | .error .insufficientData => if r.isOversized then .noise else .incomplete
  | .error _ => .noise

theorem length_align_le (r : Receiver) :
  r.align.bytes.length ≤ r.bytes.length
  := by
  unfold align
  split
  · simp
  · split
    · simp
    · split <;> simp

theorem front_ne_noise_of_empty {r : Receiver} (h : r.bytes = []) :
  r.front ≠ .noise
  := by
  simp [front, isOversized, Message.read, Header.read, h, bind, Except.bind]

/-- Takes the next message out of the buffer. -/
def next? (r : Receiver) : Option Message × Receiver :=
  match _h : r.align.front with
  | .message message length => (some message, r.align.drop length)
  | .incomplete => (none, r.align)
  | .noise => (r.align.drop 1).next?
termination_by r.bytes.length
decreasing_by
  have hle := r.length_align_le
  have hne : r.align.bytes ≠ [] := fun he => front_ne_noise_of_empty he _h
  have hpos := List.length_pos_iff.2 hne
  simp only [bytes_drop, List.length_drop]
  omega

theorem length_drop_lt_of_message {r : Receiver} {m : Message} {n : Nat}
    (h : r.front = .message m n) :
  (r.drop n).bytes.length < r.bytes.length
  := by
  have hne : r.bytes ≠ [] := by
    intro he
    simp [front, isOversized, Message.read, Header.read, he, bind, Except.bind] at h
  have hn : 0 < n := by
    unfold front at h
    split at h
    next message length hread =>
      simp only [Front.message.injEq] at h
      have := Message.pos_of_read hread
      omega
    next => split at h <;> cases h
    next => cases h
  have := List.length_pos_iff.2 hne
  simp only [bytes_drop, List.length_drop]
  omega

theorem length_lt_of_next? {r s : Receiver} {m : Message} (h : r.next? = (some m, s)) :
  s.bytes.length < r.bytes.length
  := by
  fun_induction next? r with
  | case1 r message length hf =>
    have := length_drop_lt_of_message hf
    have := r.length_align_le
    cases h
    omega
  | case2 r hf => cases h
  | case3 r hf ih =>
    have := ih h
    have := r.length_align_le
    simp only [bytes_drop, List.length_drop] at *
    omega

/-- Takes all messages out of the buffer that are complete. -/
def drain (r : Receiver) : List Message × Receiver :=
  match _h : r.next? with
  | (none, s) => ([], s)
  | (some m, s) =>
    let (ms, s) := s.drain
    (m :: ms, s)
termination_by r.bytes.length
decreasing_by exact length_lt_of_next? _h

end Receiver

end ModelCar.Link
