import ModelCar.Drive.Controls
import ModelCar.Json.Basic
import ModelCar.Motion.Attitude
import ModelCar.Motion.Calibration

/-!
# Values in JSON

Vectors, samples, orientations, commands and calibration data as JSON.
-/

namespace ModelCar

/-- A vector as JSON. -/
def Vector3.toJson (v : Vector3 Float32) : Json :=
  .array (v.toList.map .ofSingle)

/-- The fields for the coordinates of an acceleration. -/
def accelerationFields (v : Vector3 Float32) : List (String × Json) :=
  [("ax", .ofSingle v.x), ("ay", .ofSingle v.y), ("az", .ofSingle v.z)]

/-- The fields for the coordinates of a rate of rotation. -/
def rateFields (v : Vector3 Float32) : List (String × Json) :=
  [("gx", .ofSingle v.x), ("gy", .ofSingle v.y), ("gz", .ofSingle v.z)]

/-- A motion sample as JSON. -/
def Sample.toJson (s : Sample Float32) : Json :=
  .ofFields (accelerationFields s.acceleration ++ rateFields s.rate)

/-- Angles as JSON. -/
def Angles.toJson (a : Angles) : Json :=
  .ofFields [("pitch", .ofSingle a.pitch), ("roll", .ofSingle a.roll),
    ("yaw", .ofSingle a.yaw)]

/-- A quaternion as JSON. -/
def Quaternion.toJson (q : Quaternion Float32) : Json :=
  .ofFields [("w", .ofSingle q.w), ("x", .ofSingle q.x), ("y", .ofSingle q.y),
    ("z", .ofSingle q.z)]

/-- The fields for a throttle and a steering. -/
def driveFields (throttle steering : Float32) : List (String × Json) :=
  [("throttle", .ofSingle throttle), ("steering", .ofSingle steering)]

/-- Positions of the controls as JSON. -/
def Controls.toJson (c : Controls) : Json :=
  .ofFields (driveFields c.throttle c.steering)

/-- Calibration data as JSON. -/
def CalibrationData.toJson (d : CalibrationData Float32) : Json :=
  .ofFields [("gyro_bias", d.rateBias.toJson), ("accel_bias", d.accelerationBias.toJson),
    ("gravity_vec", d.gravity.toJson), ("forward_vec", d.forward.toJson),
    ("valid", .bool d.valid)]

end ModelCar
