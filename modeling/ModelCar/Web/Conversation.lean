import ModelCar.Control.Request
import ModelCar.Journal
import ModelCar.Json.Basic

/-!
# Conversations with the control loop

Serving a web client is a conversation: reports in the journal, commands for the car,
and requests to the control loop whose outcome decides how it goes on.  How long an
answer may take is up to whoever holds the conversation.
-/

namespace ModelCar.Web

/-- What became of a request to the control loop. -/
inductive Outcome where
  | answered (answer : Answer)
  | rejected (reason : ModelCar.Request.Rejection)
  /-- No answer came in time. -/
  | silent

/-- What is left to do to serve a client. -/
inductive Conversation where
  /-- Send a reply, or none. -/
  | done (reply : Option Json)
  /-- Report in the journal. -/
  | note (entry : Entry) (next : Conversation)
  /-- Leave a command for the car. -/
  | drive (throttle steering : Float32) (next : Conversation)
  /-- Leave a request that has no answer. -/
  | leave (request : ModelCar.Request)
      (next : Except ModelCar.Request.Rejection Unit → Conversation)
  /-- Ask for an answer. -/
  | ask (request : ModelCar.Request) (next : Outcome → Conversation)

/-- Holds a conversation without a control loop that answers: requests stay in the
mailbox. -/
def Conversation.alone (m : Mailbox) : Conversation → Option Json × List Entry × Mailbox
  | done reply => (reply, [], m)
  | note entry next =>
    let (reply, entries, m) := next.alone m
    (reply, entry :: entries, m)
  | drive throttle steering next => next.alone (m.drive throttle steering)
  | leave request next =>
    match m.post request with
    | .ok (_, m) => (next (.ok ())).alone m
    | .error reason => (next (.error reason)).alone m
  | ask request next =>
    match m.post request with
    | .ok (_, m) => (next .silent).alone m
    | .error reason => (next (.rejected reason)).alone m

end ModelCar.Web
