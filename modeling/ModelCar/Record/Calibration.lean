import ModelCar.Motion.Calibration
import ModelCar.Record.Bytes

/-!
# Calibration records

The record of calibration data is a version, a byte whose lowest bit says whether the
data are valid, two unused bytes, and the numbers of the vectors.  Records of the first
version end after the biases.
-/

namespace ModelCar.Record

/-- The length of a record of the first version. -/
def shortCalibrationSize : Nat := 28

/-- The length of a calibration record. -/
def calibrationSize : Nat := 52

/-- The record of calibration data. -/
def ofCalibration (d : CalibrationData Float32) : List UInt8 :=
  2 :: byteOfBool d.valid :: 0 :: 0
    :: (d.rateBias.toList ++ d.accelerationBias.toList ++ d.gravity.toList
      ++ d.forward.toList).flatMap numberBytes

/-- The calibration data with given numbers, the last six of which may be missing. -/
def calibrationOf? (valid : Bool) : List Float32 → Option (CalibrationData Float32)
  | [a, b, c, d, e, f] => some ⟨⟨a, b, c⟩, ⟨d, e, f⟩, .down, .ahead, valid⟩
  | [a, b, c, d, e, f, g, h, i, j, k, l] =>
    some ⟨⟨a, b, c⟩, ⟨d, e, f⟩, ⟨g, h, i⟩, ⟨j, k, l⟩, valid⟩
  | _ => none

/-- Reads the numbers of a calibration record. -/
def readCalibration (count : Nat) (flags : UInt8) (body : List UInt8) :
    Except Fault (CalibrationData Float32) :=
  match (numbers? count body).bind (calibrationOf? (flags &&& 1 ≠ 0)) with
  | some d => .ok d
  | none => .error .notFinite

/-- Reads a calibration record. -/
def toCalibration (bytes : List UInt8) : Except Fault (CalibrationData Float32) :=
  if bytes.length < shortCalibrationSize then .error .tooShort
  else
    match bytes with
    | version :: flags :: _ :: _ :: body =>
      if version = 1 then readCalibration 6 flags body
      else if version = 2 then
        if bytes.length < calibrationSize then .error .tooShort
        else readCalibration 12 flags body
      else .error .badVersion
    | _ => .error .tooShort

end ModelCar.Record
