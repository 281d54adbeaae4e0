import ModelCar.Journal
import ModelCar.Link.Receiver

/-!
# The bridge

A `Bridge` sends and receives messages through a serial line that never waits: a read
gives some of the bytes that are there.  `pump` moves bytes from the line to the
receive buffer until there are none or no more fit in.
-/

namespace ModelCar.Link

/-- Why bytes could not be exchanged. -/
inductive LinkError where
  | io (detail : String)
  | frame (error : FrameError)
deriving DecidableEq, Repr

/-- The wording of a link error. -/
def LinkError.message : LinkError → String
  | io detail => "serial io: " ++ detail
  | frame error => "frame: " ++ error.message

/-- A serial line: the bytes that have arrived at it, the bytes written to it, the
number of reads so far with the largest number of bytes that each read gives, and the
faults that reading and writing run into. -/
structure Line where
  inbound : List UInt8 := []
  outbound : List UInt8 := []
  reads : Nat := 0
  grant : Nat → Nat := fun _ => 128
  readFault : Option String := none
  writeFault : Option String := none

namespace Line

/-- Reads at most `n` bytes. -/
def read (l : Line) (n : Nat) : Except LinkError (List UInt8 × Line) :=
  match l.readFault with
  | some detail => .error (.io detail)
  | none =>
    let n := min n (l.grant l.reads)
    .ok (l.inbound.take n, { l with inbound := l.inbound.drop n, reads := l.reads + 1 })

/-- Writes bytes. -/
def write (l : Line) (bytes : List UInt8) : Except LinkError Line :=
  match l.writeFault with
  | some detail => .error (.io detail)
  | none => .ok { l with outbound := l.outbound ++ bytes }

theorem inbound_of_read {l m : Line} {n : Nat} {bytes : List UInt8}
    (h : l.read n = .ok (bytes, m)) :
  bytes ++ m.inbound = l.inbound
  := by
  unfold read at h
  split at h
  · cases h
  · cases h
    apply List.take_append_drop

end Line

/-- One end of a link. -/
structure Bridge where
  line : Line
  receiver : Receiver := {}

namespace Bridge

/-- The largest number of bytes that are read at once. -/
def readSize : Nat := 128

/-- The length of the buffer for frames to be sent. -/
def sendSize : Nat := 256

/-- The receive buffer, aligned first if it is full. -/
def makeRoom (r : Receiver) : Receiver :=
  if r.isFull then r.align else r

/-- Moves bytes from the line to the receive buffer, and counts them. -/
def pump (b : Bridge) : Except LinkError Nat × Bridge :=
  let receiver := makeRoom b.receiver
  if receiver.isFull then
    (.ok 0, { b with receiver })
  else
    match _h : b.line.read (min receiver.free readSize) with
    | .error e => (.error e, { b with receiver })
    | .ok ([], line) => (.ok 0, ⟨line, receiver⟩)
    | .ok (byte :: bytes, line) =>
      let (result, b) := pump ⟨line, receiver.extend (byte :: bytes)⟩
      (result.map (· + (bytes.length + 1)), b)
termination_by b.line.inbound.length
decreasing_by
  simp only [← Line.inbound_of_read _h, List.length_append, List.length_cons]
  omega

/-- The number of bytes that are waiting at the line or in the receive buffer. -/
def waiting (b : Bridge) : Nat :=
  b.line.inbound.length + b.receiver.bytes.length

theorem length_makeRoom_le (r : Receiver) :
  (makeRoom r).bytes.length ≤ r.bytes.length
  := by
  unfold makeRoom
  split
  · exact r.length_align_le
  · exact Nat.le_refl _

theorem waiting_pump_le (b : Bridge) :
  b.pump.2.waiting ≤ b.waiting
  := by
  have hroom := length_makeRoom_le b.receiver
  fun_induction pump b with
  | case1 b receiver =>
    have : receiver = makeRoom b.receiver := rfl
    simp only [waiting, this]
    omega
  | case2 b receiver =>
    have : receiver = makeRoom b.receiver := rfl
    simp only [waiting, this]
    omega
  | case3 b receiver _ line hread =>
    have : receiver = makeRoom b.receiver := rfl
    have := Line.inbound_of_read hread
    simp_all only [waiting, List.nil_append]
    omega
  | case4 b receiver _ byte bytes line hread result after hafter ih =>
    have hr : receiver = makeRoom b.receiver := rfl
    have hin := congrArg List.length (Line.inbound_of_read hread)
    have := ih (length_makeRoom_le _)
    simp only [hafter, waiting, Receiver.bytes_extend, List.length_append,
      List.length_take] at this hin ⊢
    rw [hr] at this
    omega

/-- What receiving led to. -/
structure Received where
  message : Option Message
  journal : List Entry
  bridge : Bridge

/-- Reads the line and takes out the next message. -/
def receive (b : Bridge) : Received :=
  let (result, b) := b.pump
  let (message, receiver) := b.receiver.next?
  let journal :=
    match result with
    | .ok _ => []
    | .error e => [.warn ("UART RX error: " ++ e.message)]
  ⟨message, journal, { b with receiver }⟩

theorem waiting_receive_lt {b : Bridge} {m : Message} (h : b.receive.message = some m) :
  b.receive.bridge.waiting < b.waiting
  := by
  have hnext : b.pump.2.receiver.next? = (some m, b.receive.bridge.receiver) := by
    rw [← h]
    rfl
  have hline : b.receive.bridge.line = b.pump.2.line := rfl
  have := Receiver.length_lt_of_next? hnext
  have := b.waiting_pump_le
  simp only [waiting, hline] at *
  omega

/-- Receives until there is no message any more. -/
def receiveAll (b : Bridge) : List Message × List Entry × Bridge :=
  match _h : b.receive with
  | ⟨none, journal, bridge⟩ => ([], journal, bridge)
  | ⟨some m, journal, bridge⟩ =>
    let (ms, later, last) := bridge.receiveAll
    (m :: ms, journal ++ later, last)
termination_by b.waiting
decreasing_by
  have h : b.receive.message = some m := by rw [_h]
  simpa [_h] using waiting_receive_lt h

/-- Sends a message. -/
def send (b : Bridge) (m : Message) : Except LinkError Bridge :=
  match m.write (List.replicate sendSize 0) with
  | .error e => .error (.frame e)
  | .ok written => (fun line => { b with line }) <$> b.line.write written.frame

end Bridge

end ModelCar.Link
