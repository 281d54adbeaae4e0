import Mathlib.Logic.Function.Basic
import ModelCar.Proofs.Control.Turn
import ModelCar.Web.Api

/-!
# Two clients and the control loop

Two clients hold their conversations while the control loop takes its turns.  Each takes
its next step at any time: it leaves a request in the mailbox, fetches an answer that has
come, or stops waiting for it.  A turn reads the inputs, serves one request after the
other until none is waiting, and goes on; the clients may do something in between.  A
turn that nobody disturbs is the turn of the control loop.
-/

namespace ModelCar

/-- The mailbox with one more request, which comes last, and whose ticket is new. -/
def Mailbox.posted (m : Mailbox) (r : Request) : Mailbox :=
  { m with inbox :=
    { m.inbox with
      waiting := m.inbox.waiting ++ [⟨m.inbox.next, r⟩]
      next := m.inbox.next + 1 } }

theorem Mailbox.post_eq_ok {m n : Mailbox} {r : Request} {ticket : Nat}
    (h : m.post r = .ok (ticket, n)) :
  ticket = m.inbox.next ∧ n = m.posted r
  := by
  unfold Mailbox.post Inbox.post at h
  split at h
  · cases h
  · split at h
    · cases h
    · cases h
      exact ⟨rfl, rfl⟩

/-- A request is taken as long as there is room for it. -/
theorem Mailbox.post_of_room {m : Mailbox} (hc : m.inbox.connected)
    (hroom : m.inbox.waiting.length < Inbox.capacity) (r : Request) :
  m.post r = .ok (m.inbox.next, m.posted r)
  := by
  unfold post Inbox.post
  rw [if_neg (not_not_intro hc), if_neg (Nat.not_le.mpr hroom)]
  rfl

namespace Web

/-- One of the two clients. -/
inductive Side where
  | first
  | second
deriving DecidableEq

/-- The other client. -/
def Side.other : Side → Side
  | first => second
  | second => first

/-- What a client is about to do. -/
inductive Client where
  /-- To go on with its conversation. -/
  | talking (conversation : Conversation)
  /-- To wait for the answer to the request with a ticket. -/
  | waiting (ticket : Nat) (next : Outcome → Conversation)

/-- The answer that an effect gives to the request with a ticket. -/
def answer? : Effect → Option (Nat × Answer)
  | .answer ticket a => some (ticket, a)
  | _ => none

/-- The control loop with its mailbox, the answers that it has given, and two clients. -/
structure World where
  control : Control
  mailbox : Mailbox
  answers : List (Nat × Answer)
  client : Side → Client
  /-- The turn that is under way, with the time since the one before. -/
  turn : Option (Surroundings × Millis)
  /-- The requests that have been served. -/
  served : List ModelCar.Request

/-- Something that happens. -/
inductive Action where
  /-- A client takes its next step. -/
  | step (side : Side)
  /-- A client does not wait any longer. -/
  | giveUp (side : Side)
  /-- A turn begins. -/
  | sense (surroundings : Surroundings)
  /-- The oldest request is served, while storing runs into a fault or not. -/
  | serve (fault : Option Fault)
  /-- The turn ends, if no request is waiting. -/
  | finish

namespace World

/-- A client goes over to something else. -/
def become (w : World) (side : Side) (c : Client) : World :=
  { w with client := Function.update w.client side c }

/-- A client takes its next step; without an answer it goes on waiting. -/
def step (w : World) (side : Side) : World :=
  match w.client side with
  | .talking (.done _) => w
  | .talking (.note _ next) => w.become side (.talking next)
  | .talking (.drive throttle steering next) =>
    { w with mailbox := w.mailbox.drive throttle steering }.become side (.talking next)
  | .talking (.leave request next) =>
    match w.mailbox.post request with
    | .ok (_, mailbox) => { w with mailbox }.become side (.talking (next (.ok ())))
    | .error reason => w.become side (.talking (next (.error reason)))
  | .talking (.ask request next) =>
    match w.mailbox.post request with
    | .ok (ticket, mailbox) => { w with mailbox }.become side (.waiting ticket next)
    | .error reason => w.become side (.talking (next (.rejected reason)))
  | .waiting ticket next =>
    match w.answers.lookup ticket with
    | some a => w.become side (.talking (next (.answered a)))
    | none => w

/-- A client does not wait any longer. -/
def giveUp (w : World) (side : Side) : World :=
  match w.client side with
  | .talking _ => w
  | .waiting _ next => w.become side (.talking (next .silent))

/-- A turn begins, unless one is under way. -/
def sense (w : World) (s : Surroundings) : World :=
  match w.turn with
  | some _ => w
  | none =>
    { w with control := w.control.sensed s, turn := some (s, w.control.elapsed s.now) }

/-- The world when a request has been served and others are still waiting. -/
def handle (w : World) (d : Delivery) (waiting : List Ticketed) : World :=
  { w with
    control := (w.control.handle d).1
    mailbox := { w.mailbox with inbox := { w.mailbox.inbox with waiting } }
    answers := w.answers ++ (w.control.handle d).2.filterMap answer?
    served := w.served ++ [d.request] }

/-- The oldest request is served. -/
def serve (w : World) (fault : Option Fault) : World :=
  match w.turn, w.mailbox.inbox.waiting with
  | some _, first :: waiting => w.handle ⟨first, fault⟩ waiting
  | _, _ => w

/-- The turn ends, if no request is waiting. -/
def finish (w : World) : World :=
  match w.turn, w.mailbox.inbox.waiting with
  | some (s, elapsed), [] => { w with control := (w.control.finish s elapsed).1, turn := none }
  | _, _ => w

/-- The world after something has happened; what cannot happen changes nothing. -/
def next (w : World) : Action → World
  | .step side => w.step side
  | .giveUp side => w.giveUp side
  | .sense s => w.sense s
  | .serve fault => w.serve fault
  | .finish => w.finish

/-- The world after some actions. -/
def after (w : World) (run : List Action) : World :=
  run.foldl next w

theorem after_cons (w : World) (a : Action) (run : List Action) :
  w.after (a :: run) = (w.next a).after run
  := rfl

theorem after_append (w : World) (run more : List Action) :
  w.after (run ++ more) = (w.after run).after more
  := List.foldl_append

/-! ### A turn that nobody disturbs -/

theorem sense_of_no_turn {w : World} (ht : w.turn = none) (s : Surroundings) :
  w.sense s =
    { w with control := w.control.sensed s, turn := some (s, w.control.elapsed s.now) }
  := by simp only [sense, ht]

theorem serve_of_waiting {w : World} {t : Surroundings × Millis} (ht : w.turn = some t)
    {d : Delivery} {waiting : List Ticketed}
    (hw : w.mailbox.inbox.waiting = d.toTicketed :: waiting) :
  w.serve d.fault = w.handle d waiting
  := by simp only [serve, ht, hw]

theorem finish_of_none_waiting {w : World} {s : Surroundings} {elapsed : Millis}
    (ht : w.turn = some (s, elapsed)) (hw : w.mailbox.inbox.waiting = []) :
  w.finish = { w with control := (w.control.finish s elapsed).1, turn := none }
  := by simp only [finish, ht, hw]

/-- All requests that are waiting are served in their order. -/
theorem after_serve {w : World} {t : Surroundings × Millis} (ht : w.turn = some t)
    {ds : List Delivery} (hd : w.mailbox.inbox.waiting = ds.map Delivery.toTicketed) :
  (w.after (ds.map fun d => .serve d.fault)).control = (w.control.serve ds).1 ∧
    (w.after (ds.map fun d => .serve d.fault)).mailbox.inbox.waiting = [] ∧
    (w.after (ds.map fun d => .serve d.fault)).turn = some t
  := by
  induction ds generalizing w with
  | nil => exact ⟨rfl, hd, ht⟩
  | cons d ds ih =>
      rw [List.map_cons, after_cons, next, serve_of_waiting ht hd, Control.serve_cons]
      exact ih ht rfl

/-- A turn that nobody disturbs is a turn of the control loop. -/
theorem after_turn {w : World} (ht : w.turn = none) {s : Surroundings}
    (hs : w.mailbox.inbox.waiting = s.requests.map Delivery.toTicketed) :
  (w.after (.sense s :: (s.requests.map fun d => .serve d.fault) ++ [.finish])).control
    = (w.control.turn s).1
  := by
  rw [List.cons_append, after_cons, after_append, next, sense_of_no_turn ht]
  generalize hw : ({ w with
    control := w.control.sensed s, turn := some (s, w.control.elapsed s.now) } : World) = v
  obtain ⟨hc, hwaiting, hturn⟩ := after_serve (w := v) (by rw [← hw]) (by rw [← hw]; exact hs)
  rw [after_cons, next, finish_of_none_waiting hturn hwaiting]
  show ((v.after _).control.finish s _).1 = _
  rw [hc, ← hw]
  rfl

/-! ### What an action changes -/

variable {w : World} {i : Side}

/-- A client that asks waits for the answer, unless its request is rejected. -/
theorem step_of_ask {request : ModelCar.Request} {next : Outcome → Conversation}
    (hc : w.client i = .talking (.ask request next)) :
  w.step i =
      { w with mailbox := w.mailbox.posted request }.become i
        (.waiting w.mailbox.inbox.next next) ∨
    ∃ reason, w.step i = w.become i (.talking (next (.rejected reason)))
  := by
  simp only [step, hc]
  split
  · rename_i hm
    obtain ⟨rfl, rfl⟩ := Mailbox.post_eq_ok hm
    left
    rfl
  · right
    exact ⟨_, rfl⟩

/-- A client that asks waits for the answer, if there is room for its request. -/
theorem step_of_room {request : ModelCar.Request} {next : Outcome → Conversation}
    (hc : w.client i = .talking (.ask request next)) (hconnected : w.mailbox.inbox.connected)
    (hroom : w.mailbox.inbox.waiting.length < Inbox.capacity) :
  w.step i =
    { w with mailbox := w.mailbox.posted request }.become i
      (.waiting w.mailbox.inbox.next next)
  := by simp only [step, hc, Mailbox.post_of_room hconnected hroom]

theorem step_of_answer {ticket : Nat} {next : Outcome → Conversation} {a : Answer}
    (hc : w.client i = .waiting ticket next) (ha : w.answers.lookup ticket = some a) :
  w.step i = w.become i (.talking (next (.answered a)))
  := by simp only [step, hc, ha]

theorem step_of_no_answer {ticket : Nat} {next : Outcome → Conversation}
    (hc : w.client i = .waiting ticket next) (ha : w.answers.lookup ticket = none) :
  w.step i = w
  := by simp only [step, hc, ha]

/-- Serving takes the oldest request, if there is one. -/
theorem serve_cases (w : World) (fault : Option Fault) :
  w.serve fault = w ∨
    ∃ d waiting, w.mailbox.inbox.waiting = d.toTicketed :: waiting ∧
      w.serve fault = w.handle d waiting
  := by
  unfold serve
  split
  · right
    rename_i first waiting _ hw
    exact ⟨⟨first, fault⟩, waiting, hw, rfl⟩
  · left
    rfl

end World

end Web

end ModelCar
