import ModelCar.Proofs.Link.Message

/-!
# Numbered commands

An encoder numbers its commands from zero on, modulo `2 ^ 16`.  A number is used up with
every frame that is put into a buffer, and only then: the numbers of the frames of an encoder
are read as `0`, `1`, `2` and so on, whatever calls have failed in between and whatever other
encoders have done.
-/

namespace ModelCar.Link

/-- The frame of a command is read as the command with rounded positions. -/
theorem readCommand_frame (c : Command) (rest : List UInt8) :
  readCommand ((Message.command c).frame ++ rest)
    = .ok ⟨c.seq, dequantize (quantize c.throttle), dequantize (quantize c.steering)⟩
  := by
  have hpayload : payload ((Message.command c).frame ++ rest) .command Kind.command.fits
      = .ok c.payload :=
    payload_frame _ (Message.command c).fits_payload (Message.command c).payload_lt rest
  simp only [readCommand, readKind, hpayload, c.ofPayload?_payload]

theorem length_frame_command (c : Command) :
  (Message.command c).frame.length = 15
  := (Message.command c).length_frame

namespace Encoder

/-! ### Calls -/

/-- A call of an encoder: the buffer for the frame, and the positions to be sent. -/
structure Call where
  buffer : List UInt8
  throttle : Float32
  steering : Float32
deriving DecidableEq

/-- A call and its outcome: the length of the frame that was put into the buffer, or why none
was, and the buffer afterwards. -/
structure Exchange where
  call : Call
  result : Except FrameError Nat
  buffer : List UInt8

/-- A frame was put into the buffer. -/
def Exchange.succeeded (x : Exchange) : Bool :=
  x.result.isOk

/-- What a call leads to. -/
def answer (e : Encoder) (call : Call) : Exchange :=
  let outcome := (e.encode call.buffer call.throttle call.steering).1
  ⟨call, outcome.1, outcome.2⟩

/-- The encoder after a call. -/
def perform (e : Encoder) (call : Call) : Encoder :=
  (e.encode call.buffer call.throttle call.steering).2

/-- What calls that come one after the other lead to. -/
def exchanges : Encoder → List Call → List Exchange
  | _, [] => []
  | e, call :: calls => e.answer call :: (e.perform call).exchanges calls

/-- The command that a call asks for. -/
def command (e : Encoder) (call : Call) : Command :=
  ⟨e.next, call.throttle, call.steering⟩

variable (e : Encoder)

/-- With room for it the frame of the next command is put into the buffer, and its number is
used up. -/
theorem encode_of_le (call : Call) (h : 15 ≤ call.buffer.length) :
  e.answer call
      = ⟨call, .ok 15, (Message.command (e.command call)).frame ++ call.buffer.drop 15⟩ ∧
    e.perform call = ⟨e.next + 1⟩
  := by
  have hframe := length_frame_command (e.command call)
  have hroom : (Message.command (e.command call)).frame.length ≤ call.buffer.length := by
    rwa [hframe]
  have hencode := (Message.command (e.command call)).encode_of_le hroom
  rw [hframe, command] at hencode
  constructor
  · simp only [answer, encode, hencode, command]
  · simp only [perform, encode, hencode]

/-- Without room the buffer stays as it is, and so does the encoder. -/
theorem encode_of_lt (call : Call) (h : call.buffer.length < 15) :
  e.answer call = ⟨call, .error .bufferTooSmall, call.buffer⟩ ∧ e.perform call = e
  := by
  have hframe := length_frame_command (e.command call)
  have hroom : call.buffer.length < (Message.command (e.command call)).frame.length := by
    rwa [hframe]
  have hencode := (Message.command (e.command call)).encode_of_lt hroom
  rw [command] at hencode
  constructor
  · simp only [answer, encode, hencode]
  · simp only [perform, encode, hencode]

/-- A call changes the buffer exactly if there is room for a frame, and nothing behind it. -/
structure Exchange.Proper (x : Exchange) : Prop where
  /-- With room for a frame there is one in the buffer, and nothing changes behind it. -/
  room : 15 ≤ x.call.buffer.length →
    x.result = .ok 15 ∧ x.buffer.drop 15 = x.call.buffer.drop 15
  /-- Without room nothing changes. -/
  noRoom : x.call.buffer.length < 15 →
    x.result = .error .bufferTooSmall ∧ x.buffer = x.call.buffer

theorem proper_answer (call : Call) :
  (e.answer call).Proper
  := by
  constructor
  · intro h
    rw [(e.encode_of_le call h).1]
    use rfl
    apply List.drop_left'
    apply length_frame_command
  · intro h
    rw [(e.encode_of_lt call h).1]
    use rfl

theorem proper_exchanges (calls : List Call) :
  ∀ x ∈ e.exchanges calls, x.Proper
  := by
  induction calls generalizing e with
  | nil =>
      intro x hx
      cases hx
  | cons call calls ih =>
      rw [exchanges, List.forall_mem_cons]
      use e.proper_answer call
      apply ih

/-- The number of a frame is that of the frames before it, counted from the next number on. -/
theorem seq_of_exchanges (calls : List Call) {k : Nat} {x : Exchange}
    (h : ((e.exchanges calls).filter Exchange.succeeded)[k]? = some x) :
  ∃ c, readCommand (x.buffer.take 15) = .ok c ∧ c.seq = e.next + .ofNat k
  := by
  induction calls generalizing e k with
  | nil => cases h
  | cons call calls ih =>
      rw [exchanges] at h
      rcases Nat.lt_or_ge call.buffer.length 15 with hlt | hle
      · obtain ⟨hanswer, hperform⟩ := e.encode_of_lt call hlt
        rw [hanswer, hperform, List.filter_cons_of_neg (by rintro ⟨⟩)] at h
        apply ih e h
      · obtain ⟨hanswer, hperform⟩ := e.encode_of_le call hle
        rw [hanswer, hperform, List.filter_cons_of_pos rfl] at h
        cases k with
        | zero =>
            obtain rfl := Option.some.inj h
            rw [List.take_left' (length_frame_command _)]
            have hread := readCommand_frame (e.command call) []
            rw [List.append_nil] at hread
            refine ⟨_, hread, ?_⟩
            symm
            apply UInt16.add_zero
        | succ k =>
            obtain ⟨c, hread, hseq⟩ := ih _ h
            use c, hread
            rw [hseq, UInt16.ofNat_add, UInt16.add_assoc, UInt16.add_comm 1]
            rfl

/-! ### Several encoders -/

section
variable {ι : Type} [DecidableEq ι]

/-- What belongs to one of several owners. -/
def ownedBy {α : Type} (i : ι) (xs : List (ι × α)) : List α :=
  (xs.filter fun x => x.1 = i).map Prod.snd

/-- What calls of several encoders lead to, in the order in which they come. -/
def interleaved : (ι → Encoder) → List (ι × Call) → List (ι × Exchange)
  | _, [] => []
  | es, (i, call) :: calls =>
    (i, (es i).answer call)
      :: interleaved (Function.update es i ((es i).perform call)) calls

theorem ownedBy_cons_self {α : Type} (i : ι) (a : α) (xs : List (ι × α)) :
  ownedBy i ((i, a) :: xs) = a :: ownedBy i xs
  := by
  rw [ownedBy, List.filter_cons_of_pos (by simp), List.map_cons]
  rfl

theorem ownedBy_cons_of_ne {α : Type} {i j : ι} (h : j ≠ i) (a : α) (xs : List (ι × α)) :
  ownedBy i ((j, a) :: xs) = ownedBy i xs
  := by
  rw [ownedBy, List.filter_cons_of_neg (by simpa using h)]
  rfl

/-- An encoder does the same alone as among others. -/
theorem ownedBy_interleaved (es : ι → Encoder) (i : ι) (calls : List (ι × Call)) :
  ownedBy i (interleaved es calls) = (es i).exchanges (ownedBy i calls)
  := by
  induction calls generalizing es with
  | nil => rfl
  | cons first calls ih =>
      obtain ⟨j, call⟩ := first
      rw [interleaved]
      obtain rfl | h := eq_or_ne j i
      · rw [ownedBy_cons_self, ownedBy_cons_self, ih, Function.update_self, exchanges]
      · rw [ownedBy_cons_of_ne h, ownedBy_cons_of_ne h, ih, Function.update_of_ne h.symm]

/-- Encoders are called in any order, with any buffers and positions.  Each of them does what
it would do alone.  A call succeeds exactly if there is room for a frame of fifteen bytes, and
a call that fails changes nothing.  The frame of the successful call with `k` successful calls
of the same encoder before it is read as a command with the number `k`, modulo `2 ^ 16`. -/
theorem commands_numbered (calls : List (ι × Call)) (i : ι) :
  let own := ownedBy i (interleaved (fun _ => {}) calls)
  own = ({} : Encoder).exchanges (ownedBy i calls) ∧
    (∀ x ∈ own, x.Proper) ∧
    ∀ k x, (own.filter Exchange.succeeded)[k]? = some x →
      ∃ c, readCommand (x.buffer.take 15) = .ok c ∧ c.seq.toNat = k % 2 ^ 16
  := by
  have hown := ownedBy_interleaved (fun _ => {}) i calls
  rw [hown]
  use rfl, proper_exchanges _ _
  intro k x hx
  obtain ⟨c, hread, hseq⟩ := seq_of_exchanges _ _ hx
  use c, hread
  rw [hseq, UInt16.zero_add]
  rfl

end

/-- Two encoders in turns, and a call without room. -/
def alternating : List (Bool × Call) :=
  [(true, ⟨List.replicate 16 0, 0.5, -2.0⟩), (false, ⟨List.replicate 15 0, 0.0, 0.0⟩),
    (true, ⟨[1, 2, 3], 0.5, 0.5⟩), (true, ⟨List.replicate 15 7, 1.0, 0.0⟩)]

theorem commands_numbered_alternating :
  let own := ownedBy true (interleaved (fun _ => {}) alternating)
  ∃ x c, (own.filter Exchange.succeeded)[1]? = some x ∧
    readCommand (x.buffer.take 15) = .ok c ∧ c.seq.toNat = 1
  := by
  obtain ⟨-, -, hnumbered⟩ := commands_numbered alternating true
  obtain ⟨c, hread, hseq⟩ := hnumbered 1 _ rfl
  exact ⟨_, c, rfl, hread, hseq⟩

end Encoder

end ModelCar.Link
