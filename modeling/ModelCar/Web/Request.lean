import ModelCar.Json.Parser
import ModelCar.Stabilization.TuningJson

/-!
# Requests of web clients

A web client sends JSON texts.  The field `type` says what is asked for and the other
fields hold the details; an array with the type first and the details after it in their
order says the same.
-/

namespace ModelCar.Web

/-- What a web client asks for. -/
inductive Request where
  /-- Calibrate in the mode with a name. -/
  | calibrate (mode : Option String)
  | calibrationStatus
  /-- Set the forward direction to the first three of some numbers. -/
  | setForward (numbers : List Float32)
  | tuning
  | retune (patch : Tuning.Patch Float32)
  | drive (throttle steering : Float32)
deriving DecidableEq

namespace Request

/-- A request without details.  Fields that say nothing do no harm, but an array has to
end after the type. -/
def bare (r : Request) : Json → Option Request
  | .array (_ :: _) => none
  | _ => some r

/-- The request with a type and details. -/
def ofDetails? (type : String) (details : Json) : Option Request :=
  match type with
  | "calibrate_imu" => do
    match ← details.slots ["mode"] with
    | [mode] => calibrate <$> Json.optional Json.text? mode
    | _ => none
  | "get_calib_status" => calibrationStatus.bare details
  | "set_forward_direction" => do
    match ← details.slots ["vec"] with
    | [numbers] => setForward <$> Json.defaulted [] (Json.list? Json.single?) numbers
    | _ => none
  | "get_stab_config" => tuning.bare details
  | "set_stab_config" => retune <$> Tuning.Patch.ofJson? details
  | "cmd" => do
    match ← details.slots ["throttle", "steering"] with
    | [throttle, steering] =>
      pure (drive (← Json.required Json.single? throttle)
        (← Json.required Json.single? steering))
    | _ => none
  | _ => none

/-- A field that holds the type of a request. -/
def isType (field : List Char × Json) : Bool :=
  Json.unescape? field.1 = some "type".toList

/-- The request that a JSON value stands for. -/
def ofJson? (value : Json) : Option Request :=
  if value.isSound then
    match value with
    | .object fields => do
      match fields.filter isType with
      | [(_, type)] =>
        ofDetails? (← type.text?) (.object (fields.filter fun field => ¬ isType field))
      | _ => none
    | .array (type :: details) => do
      ofDetails? (← type.text?) (.array details)
    | _ => none
  else none

/-- The request of a text. -/
def ofText? (text : String) : Option Request :=
  (Json.parse? text.toList).bind ofJson?

end Request

end ModelCar.Web
