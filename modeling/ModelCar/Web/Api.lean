import ModelCar.Control.Notice
import ModelCar.Number.Binary
import ModelCar.Web.Conversation
import ModelCar.Web.Request

/-!
# The web interface

How a request of a web client is served: which requests to the control loop it leads
to, what is reported, and what the client is told.  Replies have their fields in
alphabetical order, and their numbers in the precision of `Float`.
-/

namespace ModelCar.Web

/-! ### Replies -/

/-- A reply with its type. -/
def reply (type : String) (fields : List (String × Json)) : Json :=
  (Json.ofFields (("type", .ofText type) :: fields)).sorted

/-- The reply to a request that was not carried out. -/
def errorReply (message : String) : Json :=
  reply "error" [("message", .ofText message)]

/-- A number in a reply. -/
def number (x : Float32) : Json :=
  .ofDouble (widen x)

/-- A tuning in a reply. -/
def tuningValue (t : Tuning Float32) : Json :=
  (Json.ofFields (t.fields number)).sorted

/-- The end of a conversation with a reply. -/
def Conversation.say (reply : Json) : Conversation :=
  .done (some reply)

/-- The wording of a rejection. -/
def rejectionMessage : ModelCar.Request.Rejection → String
  | .busy => "control loop busy"
  | .disconnected => "control loop not running"

/-- The end of a conversation whose request was rejected. -/
def rejected (reason : ModelCar.Request.Rejection) : Conversation :=
  .say (errorReply (rejectionMessage reason))

/-- The end of a conversation whose request was not answered. -/
def unanswered : Conversation :=
  .say (errorReply "control loop did not respond")

/-- Asks the control loop, and goes on with an answer of the kind that was expected. -/
def asking {α : Type} (request : ModelCar.Request) (expected : Answer → Option α)
    (next : α → Conversation) : Conversation :=
  .ask request fun
    | .answered answer =>
      match expected answer with
      | some a => next a
      | none => unanswered
    | .rejected reason => rejected reason
    | .silent => unanswered

/-- Asks for the status of the control loop. -/
def askingStatus (next : Status → Conversation) : Conversation :=
  asking .query (fun | .status s => some s | _ => none) next

/-! ### Requests -/

/-- Calibrates the forward direction. -/
def calibrateForward : Conversation :=
  asking .calibrateForward (fun | .calibrateForward r => some r | _ => none) fun result =>
    let ok := result.toBool
    .note (.info ("WS: calibrate_imu mode=forward -> "
        ++ if ok then "stage 2 started" else "rejected"))
      (.say (reply "calibrate_imu_ack"
        [("status", .ofText (if ok then "collecting" else "failed")), ("stage", .ofInt 2),
          ("ok", .bool ok), ("mode", .ofText "forward")]))

/-- Calibrates at rest. -/
def calibrateAtRest (full : Bool) : Conversation :=
  let mode := if full then "full" else "gyro"
  .leave (.calibrate full) fun
    | .error reason => rejected reason
    | .ok () =>
      .note (.info ("WS: calibrate_imu (stage 1, mode=" ++ mode ++ ")"))
        (.say (reply "calibrate_imu_ack"
          [("status", .ofText "collecting"), ("stage", .ofInt 1), ("ok", .bool true),
            ("mode", .ofText mode)]))

/-- Calibrates in the mode with a name; other names stand for the gyroscope alone. -/
def calibrate : Option String → Conversation
  | some "forward" => calibrateForward
  | mode => calibrateAtRest (mode = some "full")

/-- The direction of the first three numbers, or the first axis if there are fewer. -/
def directionOf : List Float32 → Vector3 Float32
  | x :: y :: z :: _ => ⟨x, y, z⟩
  | _ => .ahead

/-- A vector in the journal. -/
def vectorText (v : Vector3 Float32) : String :=
  "[" ++ ", ".intercalate (v.toList.map Layout.detailed.text) ++ "]"

/-- Sets the forward direction. -/
def setForward (v : Vector3 Float32) : Conversation :=
  asking (.setForward v) (fun | .setForward kept => some kept | _ => none) fun kept =>
    .note (.info ("WS: set_forward_direction " ++ vectorText v ++ " (saved="
        ++ Notice.truth kept ++ ")"))
      (.say (reply "set_forward_direction_ack" [("ok", .bool kept)]))

/-- Tells a client what became of a change of the tuning. -/
def retuned : Except Tuning.Failure (Tuning Float32) → Conversation
  | .ok t =>
    .note (.info ("WS: set_stab_config OK (enabled=" ++ Notice.truth t.enabled ++ " beta="
        ++ fixed 3 t.attitudeGain ++ " cutoff=" ++ fixed 1 t.cutoff ++ " mode="
        ++ Notice.number t.mode.toNat ++ ")"))
      (.say (reply "set_stab_config_ack" [("ok", .bool true), ("config", tuningValue t)]))
  | .error e =>
    .note (.warn ("WS: set_stab_config failed: " ++ e.message))
      (.say (reply "set_stab_config_ack"
        [("ok", .bool false), ("message", .ofText e.message)]))

/-- Changes the tuning that is in use when the control loop tells its status. -/
def retune (p : Tuning.Patch Float32) : Conversation :=
  askingStatus fun s =>
    asking (.retune (p.apply s.tuning) true) (fun | .retune r => some r | _ => none) retuned

/-- Serves a request. -/
def serve : Request → Conversation
  | .calibrate mode => calibrate mode
  | .calibrationStatus =>
    askingStatus fun s =>
      .say (reply "calib_status"
        [("status", .ofText s.calibration.name), ("stage", .ofInt s.stage),
          ("valid", .bool s.data.valid)])
  | .setForward numbers => setForward (directionOf numbers)
  | .tuning => askingStatus fun s => .say (reply "stab_config" (s.tuning.fields number))
  | .retune patch => retune patch
  | .drive throttle steering => .drive throttle steering (.done none)

/-- Serves a text. -/
def serveText (text : String) : Conversation :=
  match Request.ofText? text with
  | some request => serve request
  | none => .say (errorReply "bad request: not a known request")

end ModelCar.Web
