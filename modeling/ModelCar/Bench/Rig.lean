import ModelCar.Bench.Basic
import ModelCar.Control.Start
import ModelCar.Control.Turn
import ModelCar.Web.Api

/-!
# The rig

A rig is a control loop on a bench, with the mailbox for its clients, the journal, and
the answers that nobody has fetched yet.
-/

namespace ModelCar

/-- A control loop on a bench. -/
structure Rig where
  control : Control
  bench : Bench
  mailbox : Mailbox := {}
  journal : List Entry := []
  answers : List (Nat × Answer) := []

namespace Rig

/-- The name of the thread of a control loop that runs by itself. -/
def loopName : String := "vehicle_ctrl"

/-- A rig before the start of its control loop. -/
def assemble (settings : Settings) (bench : Bench) : Rig where
  control := .ofSettings settings
  bench := bench

/-- Reports in the journal. -/
def report (r : Rig) (entry : Entry) : Rig :=
  { r with journal := r.journal ++ [entry] }

/-- Lets one effect of the control loop happen. -/
def perform (r : Rig) : Effect → Rig
  | .answer ticket answer => { r with answers := r.answers ++ [(ticket, answer)] }
  | .note notice => r.report notice.entry
  | effect => { r with bench := r.bench.perform effect }

/-- The rig with its control loop in another state, which some effects have led to. -/
def become (r : Rig) (control : Control) (effects : List Effect) : Rig :=
  effects.foldl perform { r with control }

/-- Starts the control loop. -/
def start (r : Rig) : Except Fault Unit × Rig :=
  let (result, control, effects) := r.control.start r.bench.startup
  (result, r.become control effects)

/-- The mailbox after the control loop has emptied it. -/
def emptied (m : Mailbox) : Mailbox :=
  { m with inbox := { m.inbox with waiting := [] }, command := none }

/-- One turn of the control loop at a time that it is told. -/
def turnAt (r : Rig) (now : Millis) : Rig :=
  let (control, effects) := r.control.turn (r.bench.surroundings now r.mailbox)
  ({ r with mailbox := emptied r.mailbox, bench := r.bench.turned }).become control effects

/-- Lets one period pass, and one turn of the control loop happen. -/
def period (r : Rig) : Rig :=
  let bench := r.bench.wait r.control.settings.period
  ({ r with bench }).turnAt bench.now

/-- A number of periods. -/
def periods (r : Rig) : Nat → Rig
  | 0 => r
  | n + 1 => r.period.periods n

/-- Leaves a request in the mailbox. -/
def post (r : Rig) (request : Request) : Except Request.Rejection (Nat × Rig) :=
  (fun (ticket, mailbox) => (ticket, { r with mailbox })) <$> r.mailbox.post request

/-- Fetches the answer to the request with a ticket. -/
def fetch (r : Rig) (ticket : Nat) : Option Answer × Rig :=
  (r.answers.lookup ticket, { r with answers := r.answers.filter fun a => a.1 ≠ ticket })

/-- Holds a conversation while the control loop runs: after each request one period
passes.  The number of periods comes with the reply. -/
def hold (r : Rig) : Web.Conversation → (Option Json × Nat) × Rig
  | .done reply => ((reply, 0), r)
  | .note entry next => (r.report entry).hold next
  | .drive throttle steering next =>
    ({ r with mailbox := r.mailbox.drive throttle steering }).hold next
  | .leave request next =>
    match r.post request with
    | .error reason => r.hold (next (.error reason))
    | .ok (_, r) =>
      let ((reply, count), r) := r.hold (next (.ok ()))
      ((reply, count + 1), r.period)
  | .ask request next =>
    match r.post request with
    | .error reason => r.hold (next (.rejected reason))
    | .ok (ticket, r) =>
      let (answer, r) := r.period.fetch ticket
      let outcome :=
        match answer with
        | some a => .answered a
        | none => .silent
      let ((reply, count), r) := r.hold (next outcome)
      ((reply, count + 1), r)

/-! ### Direct calls -/

/-- Changes the tuning at once. -/
def retune (r : Rig) (t : Tuning Float32) (keep : Bool) :
    Except Tuning.Failure (Tuning Float32) × Rig :=
  let (result, control, effects) := r.control.retune t keep r.bench.storageFault
  (result, r.become control effects)

/-- Sets the forward direction at once. -/
def setForward (r : Rig) (v : Vector3 Float32) : Bool × Rig :=
  let (kept, control, effects) := r.control.setForward v r.bench.storageFault
  (kept, r.become control effects)

/-- Starts the calibration of the forward direction at once. -/
def calibrateForward (r : Rig) : Except Calibration.Refusal Unit × Rig :=
  let (result, control, effects) := r.control.calibrateForward
  (result, r.become control effects)

end Rig

end ModelCar
