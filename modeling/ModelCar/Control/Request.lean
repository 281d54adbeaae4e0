import ModelCar.Control.Status
import ModelCar.Drive.Controls

/-!
# Requests to the control loop

Clients put requests into the inbox of the control loop, which empties it at every
turn.  The inbox holds eight requests.  Every request has a ticket, under which its
answer comes back.
-/

namespace ModelCar

/-- A request to the control loop. -/
inductive Request where
  /-- Calibrate at rest, the whole sensor or the gyroscope alone. -/
  | calibrate (full : Bool)
  /-- Calibrate the forward direction. -/
  | calibrateForward
  /-- Set the forward direction by hand. -/
  | setForward (direction : Vector3 Float32)
  /-- Change the tuning, and keep it for the next start if that is wanted. -/
  | retune (tuning : Tuning Float32) (keep : Bool)
  /-- Tell the status. -/
  | query
deriving DecidableEq

/-- The answer to a request; calibrating at rest has none. -/
inductive Answer where
  | calibrateForward (result : Except Calibration.Refusal Unit)
  | setForward (kept : Bool)
  | retune (result : Except Tuning.Failure (Tuning Float32))
  | status (status : Status)

/-- Why a request was not accepted. -/
inductive Request.Rejection where
  | busy
  | disconnected
deriving DecidableEq, Repr

/-- A request with its ticket. -/
structure Ticketed where
  ticket : Nat
  request : Request
deriving DecidableEq

/-- The inbox of the control loop. -/
structure Inbox where
  waiting : List Ticketed := []
  /-- The next ticket. -/
  next : Nat := 0
  /-- There is a control loop to empty the inbox. -/
  connected : Bool := true
deriving DecidableEq

namespace Inbox

/-- The number of requests that fit into the inbox. -/
def capacity : Nat := 8

/-- Puts a request into the inbox and gives its ticket. -/
def post (i : Inbox) (r : Request) : Except Request.Rejection (Nat × Inbox) :=
  if ¬ i.connected then .error .disconnected
  else if capacity ≤ i.waiting.length then .error .busy
  else
    .ok (i.next, { i with waiting := i.waiting ++ [⟨i.next, r⟩], next := i.next + 1 })

/-- Takes the oldest request out of the inbox. -/
def take? (i : Inbox) : Option Request × Inbox :=
  match i.waiting with
  | [] => (none, i)
  | first :: rest => (some first.request, { i with waiting := rest })

/-- The inbox after the control loop has gone away. -/
def disconnect (i : Inbox) : Inbox :=
  { i with waiting := [], connected := false }

end Inbox

/-- Where clients leave requests, and the last command that nobody has taken yet. -/
structure Mailbox where
  inbox : Inbox := {}
  command : Option Controls := none
deriving DecidableEq

namespace Mailbox

/-- Leaves a command, which replaces one that was not taken. -/
def drive (m : Mailbox) (throttle steering : Float32) : Mailbox :=
  { m with command := some (.clamped throttle steering) }

/-- Leaves a request. -/
def post (m : Mailbox) (r : Request) : Except Request.Rejection (Nat × Mailbox) :=
  (fun (ticket, inbox) => (ticket, { m with inbox })) <$> m.inbox.post r

end Mailbox

end ModelCar
