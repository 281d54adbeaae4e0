import ModelCar.Proofs.Number.Word
import ModelCar.Proofs.Stabilization.Tuning
import ModelCar.Record.Calibration
import ModelCar.Record.Tuning

/-!
# Reading records

A record is read as what it is a record of, if all its numbers are finite: no digit of a
number is lost.  Otherwise it is refused.
-/

namespace ModelCar

/-- The numbers of calibration data. -/
def CalibrationData.numbers {α : Type} (d : CalibrationData α) : List α :=
  d.rateBias.toList ++ d.accelerationBias.toList ++ d.gravity.toList ++ d.forward.toList

theorem CalibrationData.isFinite_eq (d : CalibrationData Float32) :
  d.isFinite = d.numbers.all Float32.isFinite
  := by
  simp only [numbers, Vector3.toList, List.all_append, List.all_cons, List.all_nil,
    Bool.and_true]
  simp only [isFinite, Vector3.isFinite, Vector3.all, Bool.and_assoc]
  rfl

namespace Record

/-! ### Numbers -/

/-- A number is read from its bytes as it was, if it is finite. -/
theorem numbers?_succ (n : Nat) (x : Float32) (rest : List UInt8) :
  numbers? (n + 1) (numberBytes x ++ rest)
    = if x.isFinite then (x :: ·) <$> numbers? n rest else none
  := by
  simp only [numberBytes, wordBytes, List.cons_append, List.nil_append, numbers?,
    word_bytes, ofBits_toBits]

/-- Numbers are read from their bytes as they were, if they are finite, whatever
follows. -/
theorem numbers?_flatMap (xs : List Float32) (rest : List UInt8) :
  numbers? xs.length (xs.flatMap numberBytes ++ rest)
    = if xs.all Float32.isFinite then some xs else none
  := by
  induction xs with
  | nil => rfl
  | cons x xs ih =>
      rw [List.length_cons, List.flatMap_cons, List.append_assoc, numbers?_succ, ih,
        List.all_cons]
      by_cases hx : x.isFinite
      · rw [if_pos hx, hx, Bool.true_and]
        split
        · rfl
        · rfl
      · rw [if_neg hx, Bool.eq_false_of_not_eq_true hx]
        rfl

theorem length_flatMap_numberBytes (xs : List Float32) :
  (xs.flatMap numberBytes).length = 4 * xs.length
  := by
  induction xs with
  | nil => rfl
  | cons x xs ih =>
      rw [List.flatMap_cons, List.length_append, ih, List.length_cons, numberBytes, wordBytes]
      simp only [List.length_cons, List.length_nil]
      omega

theorem byteOfBool_ne_zero (b : Bool) :
  decide (byteOfBool b ≠ 0) = b
  := by cases b <;> rfl

theorem byteOfBool_and_one (b : Bool) :
  decide (byteOfBool b &&& 1 ≠ 0) = b
  := by cases b <;> rfl

/-! ### Records -/

/-- The record of calibration data is read as these data, if their numbers are finite. -/
theorem toCalibration_ofCalibration (d : CalibrationData Float32) :
  toCalibration (ofCalibration d) = if d.isFinite then .ok d else .error .notFinite
  := by
  have hrecord : ofCalibration d
      = 2 :: byteOfBool d.valid :: 0 :: 0 :: d.numbers.flatMap numberBytes := rfl
  have hlen : (2 :: byteOfBool d.valid :: 0 :: 0 :: d.numbers.flatMap numberBytes).length
      = calibrationSize := by
    simp only [List.length_cons, length_flatMap_numberBytes]
    rfl
  have hread := numbers?_flatMap d.numbers []
  rw [List.append_nil, ← d.isFinite_eq] at hread
  have hof : calibrationOf? (byteOfBool d.valid &&& 1 ≠ 0) d.numbers = some d := by
    rw [byteOfBool_and_one]
    rfl
  have hbody : readCalibration 12 (byteOfBool d.valid) (d.numbers.flatMap numberBytes)
      = if d.isFinite then .ok d else .error .notFinite := by
    rw [readCalibration, show 12 = d.numbers.length from rfl, hread]
    by_cases hf : d.isFinite
    · rw [if_pos hf, if_pos hf, Option.bind_some, hof]
    · rw [if_neg hf, if_neg hf, Option.bind_none]
  simp only [toCalibration, hrecord, hlen, hbody, Nat.lt_irrefl, if_false, if_true,
    show ¬ calibrationSize < shortCalibrationSize by decide,
    show ¬ (2 : UInt8) = 1 by decide]

/-- What follows the version of a tuning record is read as the tuning with the mark, if
its numbers are finite. -/
theorem readTuning_ofTuning (t : Tuning Float32) :
  readTuning ((ofTuning t).drop 5)
    = if t.numbers.all Float32.isFinite then some { t with magic := Tuning.mark } else none
  := by
  have hbody : (ofTuning t).drop 5
      = byteOfBool t.enabled :: t.mode :: byteOfBool t.pitchEnabled
        :: ((t.numbers.take 9).flatMap numberBytes
          ++ (wordBytes t.fade ++ (t.numbers.drop 9).flatMap numberBytes)) := by
    simp only [ofTuning, List.append_assoc]
    rfl
  have hfirst := numbers?_flatMap (t.numbers.take 9)
    (wordBytes t.fade ++ (t.numbers.drop 9).flatMap numberBytes)
  have hlast := numbers?_flatMap (t.numbers.drop 9) []
  rw [List.append_nil] at hlast
  have hall : t.numbers.all Float32.isFinite
      = ((t.numbers.take 9).all Float32.isFinite && (t.numbers.drop 9).all Float32.isFinite) := by
    rw [← List.all_append, List.take_append_drop]
  have hdrop : ((t.numbers.take 9).flatMap numberBytes
      ++ (wordBytes t.fade ++ (t.numbers.drop 9).flatMap numberBytes)).drop 36
      = wordBytes t.fade ++ (t.numbers.drop 9).flatMap numberBytes := by
    apply List.drop_left'
    rw [length_flatMap_numberBytes]
    rfl
  have hnine : (t.numbers.take 9).length = 9 := rfl
  have htwo : (t.numbers.drop 9).length = 2 := rfl
  rw [hnine] at hfirst
  rw [htwo] at hlast
  rw [hbody, hall]
  simp only [readTuning, hfirst, hdrop]
  by_cases h₁ : (t.numbers.take 9).all Float32.isFinite
  · rw [if_pos h₁, h₁, Bool.true_and]
    show (numbers? 2 ((t.numbers.drop 9).flatMap numberBytes) >>= fun _ => _) = _
    rw [hlast]
    by_cases h₂ : (t.numbers.drop 9).all Float32.isFinite
    · rw [if_pos h₂, if_pos h₂]
      simp only [byteOfBool_ne_zero, word_bytes]
      rfl
    · rw [if_neg h₂, if_neg h₂]
      rfl
  · rw [if_neg h₁, Bool.eq_false_of_not_eq_true h₁]
    rfl

/-- The record of a tuning is read as this tuning, if it has the mark and its numbers are
finite. -/
theorem toTuning_ofTuning (t : Tuning Float32) :
  toTuning (ofTuning t)
    = if t.magic = Tuning.mark then
        if t.numbers.all Float32.isFinite then .ok t else .error .notFinite
      else .error .badMagic
  := by
  have hrecord : ofTuning t = t.magic.toUInt8 :: (t.magic >>> 8).toUInt8
      :: (t.magic >>> 16).toUInt8 :: (t.magic >>> 24).toUInt8 :: 1 :: (ofTuning t).drop 5 := rfl
  have hlen : (ofTuning t).length = tuningSize := by
    simp only [ofTuning, List.length_append, length_flatMap_numberBytes]
    rfl
  have hbody := readTuning_ofTuning t
  generalize (ofTuning t).drop 5 = body at *
  rw [hrecord] at hlen
  simp only [toTuning, hrecord, hlen, Nat.lt_irrefl, if_false, word_bytes, hbody]
  by_cases hm : t.magic = Tuning.mark
  · rw [← hm]
    by_cases hf : t.numbers.all Float32.isFinite
    · simp [hf]
    · simp [hf]
  · simp [hm]

end Record

end ModelCar
