import ModelCar.Proofs.Record.Reading

/-!
# The formats of records

A record has its numbers at fixed positions.  The readers take a record apart from its
beginning on; here they are compared with readers by position, for which a byte outside the
record is no byte at all.  That no such byte is ever asked for, which records are accepted, and
that nothing behind a record matters, is read off from the comparison.
-/

namespace ModelCar.Record

/-! ### Positions -/

/-- The word whose bytes begin at a position, if all of them are there. -/
def wordAt? (bytes : List UInt8) (i : Nat) : Option UInt32 := do
  return word (← bytes[i]?) (← bytes[i + 1]?) (← bytes[i + 2]?) (← bytes[i + 3]?)

/-- Some numbers whose bytes begin at a position, if all of them are there. -/
def numbersAt? (bytes : List UInt8) : Nat → Nat → Option (List Float32)
  | _, 0 => some []
  | i, n + 1 => do
    return .ofBits (← wordAt? bytes i) :: (← numbersAt? bytes (i + 4) n)

variable {bytes : List UInt8} {i n : Nat}

/-- The word at a position that has four bytes behind it. -/
theorem exists_word (bytes : List UInt8) (i : Nat) (h : i + 4 ≤ bytes.length) :
  ∃ a b c d, bytes.drop i = a :: b :: c :: d :: bytes.drop (i + 4) ∧
    wordAt? bytes i = some (word a b c d)
  := by
  refine ⟨bytes[i], bytes[i + 1], bytes[i + 2], bytes[i + 3], ?_, ?_⟩
  · rw [List.drop_eq_getElem_cons, List.drop_eq_getElem_cons, List.drop_eq_getElem_cons,
      List.drop_eq_getElem_cons]
  · rw [wordAt?, List.getElem?_eq_getElem (by omega), List.getElem?_eq_getElem (by omega),
      List.getElem?_eq_getElem (by omega), List.getElem?_eq_getElem (by omega)]
    rfl

/-- Numbers that have enough bytes are read, if they are finite. -/
theorem exists_numbers (bytes : List UInt8) (i n : Nat) (h : i + 4 * n ≤ bytes.length) :
  ∃ xs, numbersAt? bytes i n = some xs ∧ xs.length = n ∧
    numbers? n (bytes.drop i) = if xs.all Float32.isFinite then some xs else none
  := by
  induction n generalizing i with
  | zero => exact ⟨[], rfl, rfl, rfl⟩
  | succ n ih =>
      obtain ⟨a, b, c, d, hdrop, hword⟩ := exists_word bytes i (by omega)
      obtain ⟨xs, hxs, hlen, hread⟩ := ih (i + 4) (by omega)
      refine ⟨.ofBits (word a b c d) :: xs, ?_, ?_, ?_⟩
      · rw [numbersAt?, hword, hxs]
        rfl
      · rw [List.length_cons, hlen]
      · rw [hdrop, numbers?, hread, List.all_cons]
        split
        · rename_i hx
          rw [hx, Bool.true_and]
          split
          · rfl
          · rfl
        · rename_i hx
          rw [Bool.not_eq_true] at hx
          rw [hx]
          rfl

theorem wordAt?_append (h : i + 4 ≤ bytes.length) (more : List UInt8) :
  wordAt? (bytes ++ more) i = wordAt? bytes i
  := by
  rw [wordAt?, wordAt?, List.getElem?_append_left (by omega),
    List.getElem?_append_left (by omega), List.getElem?_append_left (by omega),
    List.getElem?_append_left (by omega)]

theorem numbersAt?_append (h : i + 4 * n ≤ bytes.length) (more : List UInt8) :
  numbersAt? (bytes ++ more) i n = numbersAt? bytes i n
  := by
  induction n generalizing i with
  | zero => rfl
  | succ n ih => rw [numbersAt?, numbersAt?, wordAt?_append (by omega), ih (by omega)]

/-! ### Calibration records -/

/-- The data with given numbers, if these are finite. -/
def judged? (valid : Bool) (xs : List Float32) :
    Option (Except Fault (CalibrationData Float32)) := do
  let d ← calibrationOf? valid xs
  return if xs.all Float32.isFinite then .ok d else .error .notFinite

/-- Reads a calibration record by position, as long as no byte outside is needed. -/
def calibrationAt? (bytes : List UInt8) : Option (Except Fault (CalibrationData Float32)) :=
  if bytes.length < shortCalibrationSize then some (.error .tooShort)
  else do
    let version ← bytes[0]?
    let flags ← bytes[1]?
    if version = 1 then judged? (flags &&& 1 ≠ 0) (← numbersAt? bytes 4 6)
    else if version ≠ 2 then return .error .badVersion
    else if bytes.length < calibrationSize then return .error .tooShort
    else judged? (flags &&& 1 ≠ 0) (← numbersAt? bytes 4 12)

/-- Six numbers, or twelve, make up calibration data. -/
theorem exists_calibrationOf (valid : Bool) {xs : List Float32}
    (h : xs.length = 6 ∨ xs.length = 12) :
  ∃ d, calibrationOf? valid xs = some d
  := by
  rcases h with h | h
  · match xs, h with
    | [_, _, _, _, _, _], _ => exact ⟨_, rfl⟩
  · match xs, h with
    | [_, _, _, _, _, _, _, _, _, _, _, _], _ => exact ⟨_, rfl⟩

/-- Numbers that are there are judged as they are read. -/
theorem exists_judged (flags : UInt8) (hn : n = 6 ∨ n = 12) (h : 4 + 4 * n ≤ bytes.length) :
  ∃ xs, numbersAt? bytes 4 n = some xs ∧
    judged? (flags &&& 1 ≠ 0) xs = some (readCalibration n flags (bytes.drop 4))
  := by
  obtain ⟨xs, hxs, hlen, hread⟩ := exists_numbers bytes 4 n h
  use xs, hxs
  rw [← hlen] at hn
  obtain ⟨d, hd⟩ := exists_calibrationOf (flags &&& 1 ≠ 0) hn
  rw [readCalibration, hread, judged?, hd]
  split
  · rw [Option.bind_some, hd]
    rfl
  · rfl

/-- The beginning of a record that is not too short. -/
theorem exists_beginning (bytes : List UInt8) (h : 4 ≤ bytes.length) :
  ∃ a b c d, bytes = a :: b :: c :: d :: bytes.drop 4 ∧ wordAt? bytes 0 = some (word a b c d) ∧
    bytes[0]? = some a ∧ bytes[1]? = some b
  := by
  obtain ⟨a, b, c, d, hdrop, hword⟩ := exists_word bytes 0 (by omega)
  rw [List.drop_zero] at hdrop
  refine ⟨a, b, c, d, hdrop, hword, ?_, ?_⟩
  · rw [hdrop]
    rfl
  · rw [hdrop]
    rfl

/-- A record that is not too short is judged by its version. -/
theorem toCalibration_of_le {version flags x y : UInt8} {body : List UInt8}
    (hbytes : bytes = version :: flags :: x :: y :: body)
    (hlen : ¬ bytes.length < shortCalibrationSize) :
  toCalibration bytes =
    if version = 1 then readCalibration 6 flags body
    else if version = 2 then
      if bytes.length < calibrationSize then .error .tooShort
      else readCalibration 12 flags body
    else .error .badVersion
  := by
  subst hbytes
  rw [toCalibration, if_neg hlen]

/-- No byte outside a record is needed, and the reader by position reads the same. -/
theorem calibrationAt?_eq (bytes : List UInt8) :
  calibrationAt? bytes = some (toCalibration bytes)
  := by
  rw [calibrationAt?]
  split
  · rename_i hshort
    exact congrArg some (if_pos hshort).symm
  · rename_i hlong
    have hlen : 28 ≤ bytes.length := Nat.le_of_not_lt hlong
    obtain ⟨version, flags, x, y, hbytes, -, hversion, hflags⟩ :=
      exists_beginning bytes (by omega)
    obtain ⟨xs, hxs, hsix⟩ := exists_judged (n := 6) flags (.inl rfl) hlen
    rw [toCalibration_of_le hbytes hlong, hversion, hflags, hxs]
    simp only [Option.bind_eq_bind, Option.bind_some, hsix]
    split
    · rfl
    · rw [ite_not]
      split
      · split
        · rfl
        · rename_i hfull
          obtain ⟨ys, hys, htwelve⟩ :=
            exists_judged (n := 12) flags (.inr rfl) (Nat.le_of_not_lt hfull)
          rw [hys, Option.bind_some, htwelve]
      · rfl

/-- The bytes begin with a calibration record of the first version or of the second one, which
has some numbers. -/
def HoldsCalibration (bytes : List UInt8) (xs : List Float32) : Prop :=
  28 ≤ bytes.length ∧ bytes[0]? = some 1 ∧ numbersAt? bytes 4 6 = some xs ∨
    52 ≤ bytes.length ∧ bytes[0]? = some 2 ∧ numbersAt? bytes 4 12 = some xs

theorem HoldsCalibration.length {xs : List Float32} (h : HoldsCalibration bytes xs) :
  xs.length = 6 ∨ xs.length = 12
  := by
  rcases h with ⟨hlen, -, hxs⟩ | ⟨hlen, -, hxs⟩
  · obtain ⟨ys, hys, hsix, -⟩ := exists_numbers bytes 4 6 hlen
    obtain rfl := Option.some.inj (hxs.symm.trans hys)
    exact .inl hsix
  · obtain ⟨ys, hys, htwelve, -⟩ := exists_numbers bytes 4 12 hlen
    obtain rfl := Option.some.inj (hxs.symm.trans hys)
    exact .inr htwelve

theorem judged?_eq_ok_iff {valid : Bool} {xs : List Float32} {d : CalibrationData Float32} :
  judged? valid xs = some (.ok d) ↔
    calibrationOf? valid xs = some d ∧ ∀ x ∈ xs, x.isFinite
  := by
  rw [judged?, ← List.all_eq_true]
  cases calibrationOf? valid xs with
  | none => simp
  | some e =>
      rcases xs.all Float32.isFinite with - | -
      · simp
      · simp

theorem readCalibration_eq_ok_iff (flags : UInt8) (hn : n = 6 ∨ n = 12)
    (h : 4 + 4 * n ≤ bytes.length) {d : CalibrationData Float32} :
  readCalibration n flags (bytes.drop 4) = .ok d ↔
    ∃ xs, numbersAt? bytes 4 n = some xs ∧ calibrationOf? (flags &&& 1 ≠ 0) xs = some d ∧
      ∀ x ∈ xs, x.isFinite
  := by
  obtain ⟨xs, hxs, hjudged⟩ := exists_judged flags hn h
  rw [← Option.some_inj, ← hjudged, judged?_eq_ok_iff, hxs]
  simp

/-- A calibration record is read exactly if it has its numbers and they are finite, and then as
the data with these numbers. -/
theorem toCalibration_eq_ok_iff {d : CalibrationData Float32} :
  toCalibration bytes = .ok d ↔
    ∃ flags xs, bytes[1]? = some flags ∧ HoldsCalibration bytes xs ∧
      calibrationOf? (flags &&& 1 ≠ 0) xs = some d ∧ ∀ x ∈ xs, x.isFinite
  := by
  rcases Nat.lt_or_ge bytes.length 28 with hshort | hlen
  · have hread : toCalibration bytes = .error .tooShort := if_pos hshort
    rw [hread]
    apply iff_of_false
    · rintro ⟨⟩
    · rintro ⟨flags, xs, -, ⟨hlen, -⟩ | ⟨hlen, -⟩, -⟩
      · omega
      · omega
  · obtain ⟨version, flags, x, y, hbytes, -, hversion, hflags⟩ :=
      exists_beginning bytes (by omega)
    have hsix : 4 + 4 * 6 ≤ bytes.length := hlen
    rw [toCalibration_of_le hbytes (Nat.not_lt.mpr hlen)]
    simp only [HoldsCalibration, hversion, hflags, Option.some.injEq, hlen, true_and]
    split
    · rename_i hone
      rw [readCalibration_eq_ok_iff flags (.inl rfl) hsix]
      simp [hone]
    · rename_i hone
      split
      · rename_i htwo
        split
        · rename_i hhalf
          have hlt : ¬ 52 ≤ bytes.length := Nat.not_le.mpr hhalf
          simp [hone, hlt]
        · rename_i hfull
          have hlen : 52 ≤ bytes.length := Nat.le_of_not_lt hfull
          rw [readCalibration_eq_ok_iff flags (.inr rfl) hlen]
          simp [htwo, hlen]
      · rename_i htwo
        simp [hone, htwo]

theorem calibration_accepted_iff (bytes : List UInt8) :
  (∃ d, toCalibration bytes = .ok d) ↔
    ∃ xs, HoldsCalibration bytes xs ∧ ∀ x ∈ xs, x.isFinite
  := by
  constructor
  · rintro ⟨d, hd⟩
    obtain ⟨flags, xs, -, hholds, -, hfinite⟩ := toCalibration_eq_ok_iff.mp hd
    use xs
  · rintro ⟨xs, hholds, hfinite⟩
    have hlen : 4 ≤ bytes.length := by
      rcases hholds with ⟨hlen, -⟩ | ⟨hlen, -⟩ <;> omega
    obtain ⟨-, flags, -, -, -, -, -, hflags⟩ := exists_beginning bytes hlen
    obtain ⟨d, hd⟩ := exists_calibrationOf (flags &&& 1 ≠ 0) hholds.length
    use d
    apply toCalibration_eq_ok_iff.mpr
    use flags, xs

/-- Data made up of finite numbers are finite, also where gravity and the forward direction are
the usual ones. -/
theorem isFinite_of_calibrationOf {valid : Bool} {xs : List Float32}
    {d : CalibrationData Float32} (h : calibrationOf? valid xs = some d)
    (hfinite : ∀ x ∈ xs, x.isFinite) :
  d.isFinite
  := by
  rw [d.isFinite_eq, List.all_eq_true]
  unfold calibrationOf? at h
  split at h
  · cases h
    have husual : ∀ x ∈ ([0.0, 0.0, 1.0, 1.0, 0.0, 0.0] : List Float32), x.isFinite := by
      decide +kernel
    have hall := List.forall_mem_append.mpr ⟨hfinite, husual⟩
    apply hall
  · cases h
    apply hfinite
  · cases h

/-- What has been read can be written and read again, as a record of the second version. -/
theorem toCalibration_again {d : CalibrationData Float32} (h : toCalibration bytes = .ok d) :
  toCalibration (ofCalibration d) = .ok d
  := by
  obtain ⟨flags, xs, -, hholds, hd, hfinite⟩ := toCalibration_eq_ok_iff.mp h
  rw [toCalibration_ofCalibration, if_pos (isFinite_of_calibrationOf hd hfinite)]

/-- What follows a calibration record is of no consequence. -/
theorem toCalibration_append (h : shortCalibrationSize ≤ bytes.length)
    (hfull : bytes[0]? = some 2 → calibrationSize ≤ bytes.length) (more : List UInt8) :
  toCalibration (bytes ++ more) = toCalibration bytes
  := by
  have hmore : bytes.length ≤ (bytes ++ more).length := List.length_append ▸ Nat.le_add_right _ _
  have hlen : 28 ≤ bytes.length := h
  obtain ⟨version, flags, -, -, -, -, hversion, hflags⟩ :=
    exists_beginning bytes (by omega)
  rw [hversion] at hfull
  apply Option.some.inj
  rw [← calibrationAt?_eq, ← calibrationAt?_eq, calibrationAt?, calibrationAt?,
    if_neg (Nat.not_lt.mpr (h.trans hmore)), if_neg (Nat.not_lt.mpr h),
    List.getElem?_append_left (by omega), hversion, List.getElem?_append_left (by omega), hflags,
    numbersAt?_append (n := 6) (by omega)]
  simp only [Option.bind_eq_bind, Option.bind_some, ite_not]
  split
  · rfl
  · split
    · rename_i htwo
      have hfull := hfull (congrArg some htwo)
      rw [if_neg (Nat.not_lt.mpr (hfull.trans hmore)), if_neg (Nat.not_lt.mpr hfull),
        numbersAt?_append (n := 12) hfull]
    · rfl

/-! ### Tuning records -/

/-- The tuning with the mark that has given switches, a fade and eleven numbers. -/
def tuningOf? (enabled mode pitchEnabled : UInt8) (fade : UInt32) :
    List Float32 → Option (Tuning Float32)
  | [attitudeGain, cutoff, sampleRate, proportional, integral, derivative, maxIntegral,
      maxCorrection, fullYawRate, pitchGain, maxPitchCorrection] =>
    some {
      enabled := enabled ≠ 0
      attitudeGain, cutoff, sampleRate, mode, proportional, integral, derivative
      maxIntegral, maxCorrection, fullYawRate, fade
      pitchEnabled := pitchEnabled ≠ 0
      pitchGain, maxPitchCorrection
      magic := Tuning.mark }
  | _ => none

/-- Reads a tuning record by position, as long as no byte outside is needed. -/
def tuningAt? (bytes : List UInt8) : Option (Except Fault (Tuning Float32)) :=
  if bytes.length < tuningSize then some (.error .tooShort)
  else do
    let magic ← wordAt? bytes 0
    let version ← bytes[4]?
    if magic ≠ Tuning.mark then return .error .badMagic
    else if version ≠ 1 then return .error .badVersion
    else
      let xs ← numbersAt? bytes 8 9
      let fade ← wordAt? bytes 44
      let ys ← numbersAt? bytes 48 2
      let t ← tuningOf? (← bytes[5]?) (← bytes[6]?) (← bytes[7]?) fade (xs ++ ys)
      return if (xs ++ ys).all Float32.isFinite then .ok t else .error .notFinite

/-- The numbers of a tuning record and what stands between them. -/
structure TuningParts (bytes : List UInt8) (enabled mode pitchEnabled : UInt8)
    (fade : UInt32) (xs ys : List Float32) : Prop where
  enabled : bytes[5]? = some enabled
  mode : bytes[6]? = some mode
  pitchEnabled : bytes[7]? = some pitchEnabled
  fade : wordAt? bytes 44 = some fade
  first : numbersAt? bytes 8 9 = some xs
  last : numbersAt? bytes 48 2 = some ys

/-- Eleven numbers make up a tuning. -/
theorem exists_tuningOf (enabled mode pitchEnabled : UInt8) (fade : UInt32) {xs ys : List Float32}
    (hnine : xs.length = 9) (htwo : ys.length = 2) :
  ∃ t, tuningOf? enabled mode pitchEnabled fade (xs ++ ys) = some t
  := by
  match xs, ys, hnine, htwo with
  | [_, _, _, _, _, _, _, _, _], [_, _], _, _ => exact ⟨_, rfl⟩

section
variable {enabled mode pitchEnabled a b c d : UInt8} {body rest : List UInt8}

theorem readTuning_of_numbers {xs ys : List Float32}
    (hmiddle : body.drop 36 = a :: b :: c :: d :: rest) (hnine : xs.length = 9)
    (hxs : numbers? 9 body = some xs) (htwo : ys.length = 2) (hys : numbers? 2 rest = some ys) :
  readTuning (enabled :: mode :: pitchEnabled :: body)
    = tuningOf? enabled mode pitchEnabled (word a b c d) (xs ++ ys)
  := by
  match xs, ys, hnine, htwo with
  | [_, _, _, _, _, _, _, _, _], [_, _], _, _ =>
    simp only [readTuning, hxs, hmiddle, Option.bind_eq_bind, Option.bind_some, hys]
    rfl

theorem readTuning_of_no_numbers (hmiddle : body.drop 36 = a :: b :: c :: d :: rest)
    (h : numbers? 9 body = none ∨ numbers? 2 rest = none) :
  readTuning (enabled :: mode :: pitchEnabled :: body) = none
  := by
  rcases h with h | h
  · rw [readTuning, h]
    rfl
  · rw [readTuning, hmiddle]
    cases numbers? 9 body with
    | none => rfl
    | some xs =>
        simp only [Option.bind_eq_bind, Option.bind_some]
        split
        · rename_i heq
          cases heq
          rw [h]
          rfl
        · rfl

end

/-- What follows the version of a tuning record that is not too short. -/
theorem exists_tuningParts (h : tuningSize ≤ bytes.length) :
  ∃ enabled mode pitchEnabled fade xs ys,
    TuningParts bytes enabled mode pitchEnabled fade xs ys ∧
    ∃ t, tuningOf? enabled mode pitchEnabled fade (xs ++ ys) = some t ∧
      readTuning (bytes.drop 5) = if (xs ++ ys).all Float32.isFinite then some t else none
  := by
  have hlen : 56 ≤ bytes.length := h
  obtain ⟨version, enabled, mode, pitchEnabled, hswitches, -⟩ :=
    exists_word bytes 4 (by omega)
  obtain ⟨a, b, c, d, hfade, hword⟩ := exists_word bytes 44 (by omega)
  obtain ⟨xs, hxs, hnine, hfirst⟩ := exists_numbers bytes 8 9 (by omega)
  obtain ⟨ys, hys, htwo, hlast⟩ := exists_numbers bytes 48 2 hlen
  have hswitch (j : Nat) :
      bytes[4 + j]? = (version :: enabled :: mode :: pitchEnabled :: bytes.drop 8)[j]? := by
    rw [← List.getElem?_drop, hswitches]
  have hbody : bytes.drop 5 = enabled :: mode :: pitchEnabled :: bytes.drop 8 := by
    have hdrop := congrArg (List.drop 1) hswitches
    rwa [List.drop_drop] at hdrop
  have hmiddle : (bytes.drop 8).drop 36 = a :: b :: c :: d :: bytes.drop 48 := by
    rw [List.drop_drop]
    exact hfade
  obtain ⟨t, ht⟩ := exists_tuningOf enabled mode pitchEnabled (word a b c d) hnine htwo
  refine ⟨enabled, mode, pitchEnabled, word a b c d, xs, ys,
    ⟨hswitch 1, hswitch 2, hswitch 3, hword, hxs, hys⟩, t, ht, ?_⟩
  rw [hbody, List.all_append]
  rcases hx : xs.all Float32.isFinite with - | -
  · rw [hx] at hfirst
    exact readTuning_of_no_numbers hmiddle (.inl hfirst)
  · rcases hy : ys.all Float32.isFinite with - | -
    · rw [hy] at hlast
      exact readTuning_of_no_numbers hmiddle (.inr hlast)
    · rw [hx] at hfirst
      rw [hy] at hlast
      rw [readTuning_of_numbers hmiddle hnine hfirst htwo hlast, ht]
      rfl

/-- The beginning of a tuning record that is not too short. -/
theorem toTuning_of_le (h : tuningSize ≤ bytes.length) :
  ∃ magic version, wordAt? bytes 0 = some magic ∧ bytes[4]? = some version ∧
    toTuning bytes =
      if magic ≠ Tuning.mark then .error .badMagic
      else if version ≠ 1 then .error .badVersion
      else
        match readTuning (bytes.drop 5) with
        | some t => .ok t
        | none => .error .notFinite
  := by
  have hlen : 56 ≤ bytes.length := h
  obtain ⟨a, b, c, d, hmark, hword, -⟩ := exists_beginning bytes (by omega)
  have hversion : bytes.drop 4 = bytes[4] :: bytes.drop 5 := List.drop_eq_getElem_cons _
  refine ⟨word a b c d, bytes[4], hword, List.getElem?_eq_getElem _, ?_⟩
  rw [hversion] at hmark
  generalize bytes[4] = version at hmark
  generalize bytes.drop 5 = body at hmark
  subst hmark
  exact if_neg (Nat.not_lt.mpr h)

/-- No byte outside a record is needed, and the reader by position reads the same. -/
theorem tuningAt?_eq (bytes : List UInt8) :
  tuningAt? bytes = some (toTuning bytes)
  := by
  rw [tuningAt?]
  split
  · rename_i hshort
    exact congrArg some (if_pos hshort).symm
  · rename_i hlong
    have hlen := Nat.le_of_not_lt hlong
    obtain ⟨magic, version, hmagic, hversion, hread⟩ := toTuning_of_le hlen
    obtain ⟨enabled, mode, pitchEnabled, fade, xs, ys, parts, t, ht, hbody⟩ :=
      exists_tuningParts hlen
    rw [hread, hbody, hmagic, hversion]
    simp only [Option.bind_eq_bind, Option.bind_some, parts.enabled, parts.mode,
      parts.pitchEnabled, parts.fade, parts.first, parts.last, ht]
    split
    · rfl
    · split
      · rfl
      · split
        · rfl
        · rfl

/-- A tuning record is accepted exactly if it has the mark, the version and finite numbers. -/
theorem tuning_accepted_iff (bytes : List UInt8) :
  (∃ t, toTuning bytes = .ok t) ↔
    56 ≤ bytes.length ∧ wordAt? bytes 0 = some Tuning.mark ∧ bytes[4]? = some 1 ∧
      ∃ xs ys, numbersAt? bytes 8 9 = some xs ∧ numbersAt? bytes 48 2 = some ys ∧
        ∀ x ∈ xs ++ ys, x.isFinite
  := by
  rcases Nat.lt_or_ge bytes.length 56 with hshort | hlen
  · have hread : toTuning bytes = .error .tooShort := if_pos hshort
    simp [hread, Nat.not_le.mpr hshort]
  · obtain ⟨magic, version, hmagic, hversion, hread⟩ := toTuning_of_le hlen
    obtain ⟨enabled, mode, pitchEnabled, fade, xs, ys, parts, t, -, hbody⟩ :=
      exists_tuningParts hlen
    have hparts : (∃ xs ys, numbersAt? bytes 8 9 = some xs ∧ numbersAt? bytes 48 2 = some ys ∧
        ∀ x ∈ xs ++ ys, x.isFinite) ↔ (xs ++ ys).all Float32.isFinite := by
      simp [parts.first, parts.last, or_imp, forall_and]
    rw [hread, hbody, hmagic, hversion, hparts]
    simp only [hlen, true_and, Option.some.injEq]
    split
    · rename_i hmark
      simp [hmark]
    · rename_i hmark
      rw [ne_eq, not_not] at hmark
      split
      · rename_i hone
        simp [hone]
      · rename_i hone
        rw [ne_eq, not_not] at hone
        rcases (xs ++ ys).all Float32.isFinite with - | -
        · simp
        · simp [hmark, hone]

/-- What follows a tuning record is of no consequence. -/
theorem toTuning_append (h : tuningSize ≤ bytes.length) (more : List UInt8) :
  toTuning (bytes ++ more) = toTuning bytes
  := by
  have hmore : bytes.length ≤ (bytes ++ more).length := List.length_append ▸ Nat.le_add_right _ _
  have hlen : 56 ≤ bytes.length := h
  apply Option.some.inj
  rw [← tuningAt?_eq, ← tuningAt?_eq, tuningAt?, tuningAt?,
    if_neg (Nat.not_lt.mpr (h.trans hmore)), if_neg (Nat.not_lt.mpr h),
    wordAt?_append (i := 0) (by omega), wordAt?_append (i := 44) (by omega),
    numbersAt?_append (i := 8) (by omega), numbersAt?_append (i := 48) (by omega),
    List.getElem?_append_left (by omega), List.getElem?_append_left (by omega),
    List.getElem?_append_left (by omega), List.getElem?_append_left (by omega)]

theorem toTuning_ofTuning_eq_ok_iff (t : Tuning Float32) :
  toTuning (ofTuning t) = .ok t ↔ t.magic = Tuning.mark ∧ ∀ x ∈ t.numbers, x.isFinite
  := by
  rw [toTuning_ofTuning, ← List.all_eq_true]
  split
  · split
    · simp [*]
    · simp [*]
  · simp [*]

/-! ### Both formats -/

/-- Calibration data and tunings are read back from their records exactly if all their numbers
are finite and the tuning has its mark.  Bytes are accepted exactly if they begin with a record
of the format; then the calibration data read can be written and read again.  No byte outside
the bytes given is asked for, and the ones behind the record change nothing. -/
theorem formats_exact :
  (∀ d, toCalibration (ofCalibration d) =
    if ∀ x ∈ d.numbers, x.isFinite then .ok d else .error .notFinite) ∧
  (∀ bytes, (∃ d, toCalibration bytes = .ok d) ↔
    ∃ xs, HoldsCalibration bytes xs ∧ ∀ x ∈ xs, x.isFinite) ∧
  (∀ bytes d, toCalibration bytes = .ok d →
    (ofCalibration d)[0]? = some 2 ∧ toCalibration (ofCalibration d) = .ok d) ∧
  (∀ t, toTuning (ofTuning t) = .ok t ↔
    t.magic = Tuning.mark ∧ ∀ x ∈ t.numbers, x.isFinite) ∧
  (∀ bytes, (∃ t, toTuning bytes = .ok t) ↔
    56 ≤ bytes.length ∧ wordAt? bytes 0 = some Tuning.mark ∧ bytes[4]? = some 1 ∧
      ∃ xs ys, numbersAt? bytes 8 9 = some xs ∧ numbersAt? bytes 48 2 = some ys ∧
        ∀ x ∈ xs ++ ys, x.isFinite) ∧
  (∀ bytes, calibrationAt? bytes = some (toCalibration bytes) ∧
    tuningAt? bytes = some (toTuning bytes)) ∧
  (∀ bytes more, 28 ≤ bytes.length → (bytes[0]? = some 2 → 52 ≤ bytes.length) →
    toCalibration (bytes ++ more) = toCalibration bytes) ∧
  ∀ bytes more, 56 ≤ bytes.length → toTuning (bytes ++ more) = toTuning bytes
  := by
  refine ⟨?_, calibration_accepted_iff, ?_, toTuning_ofTuning_eq_ok_iff, tuning_accepted_iff, ?_,
    ?_, ?_⟩
  · intro d
    rw [toCalibration_ofCalibration, d.isFinite_eq]
    simp only [List.all_eq_true]
  · intro bytes d h
    exact ⟨rfl, toCalibration_again h⟩
  · intro bytes
    exact ⟨calibrationAt?_eq bytes, tuningAt?_eq bytes⟩
  · intro bytes more h hfull
    apply toCalibration_append h hfull
  · intro bytes more h
    apply toTuning_append h

end ModelCar.Record
