import ModelCar.Record.Bytes
import ModelCar.Stabilization.Tuning

/-!
# Tuning records

The record of a tuning is its mark, a version, three bytes for the switches and the
mode, nine numbers, the fade and two more numbers.
-/

namespace ModelCar.Record

/-- The length of a tuning record. -/
def tuningSize : Nat := 56

/-- The record of a tuning. -/
def ofTuning (t : Tuning Float32) : List UInt8 :=
  wordBytes t.magic
    ++ [1, byteOfBool t.enabled, t.mode, byteOfBool t.pitchEnabled]
    ++ [t.attitudeGain, t.cutoff, t.sampleRate, t.proportional, t.integral, t.derivative,
      t.maxIntegral, t.maxCorrection, t.fullYawRate].flatMap numberBytes
    ++ wordBytes t.fade
    ++ [t.pitchGain, t.maxPitchCorrection].flatMap numberBytes

/-- Reads what follows the version of a tuning record. -/
def readTuning : List UInt8 → Option (Tuning Float32)
  | enabled :: mode :: pitchEnabled :: body => do
    match ← numbers? 9 body, body.drop 36 with
    | [attitudeGain, cutoff, sampleRate, proportional, integral, derivative, maxIntegral,
        maxCorrection, fullYawRate], a :: b :: c :: d :: rest =>
      match ← numbers? 2 rest with
      | [pitchGain, maxPitchCorrection] =>
        pure {
          enabled := enabled ≠ 0
          attitudeGain, cutoff, sampleRate, mode, proportional, integral, derivative
          maxIntegral, maxCorrection, fullYawRate
          fade := word a b c d
          pitchEnabled := pitchEnabled ≠ 0
          pitchGain, maxPitchCorrection
          magic := Tuning.mark }
      | _ => none
    | _, _ => none
  | _ => none

/-- Reads a tuning record. -/
def toTuning (bytes : List UInt8) : Except Fault (Tuning Float32) :=
  if bytes.length < tuningSize then .error .tooShort
  else
    match bytes with
    | a :: b :: c :: d :: version :: body =>
      if word a b c d ≠ Tuning.mark then .error .badMagic
      else if version ≠ 1 then .error .badVersion
      else
        match readTuning body with
        | some t => .ok t
        | none => .error .notFinite
    | _ => .error .tooShort

end ModelCar.Record
