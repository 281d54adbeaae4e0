import ModelCar.Proofs.Number.Exact
import ModelCar.Proofs.Motion.Session

/-!
# Exact statistics

`Moments` takes in one value after the other.  In exact arithmetic it holds what two passes
over all values give, their average and the squares of the distances to it:
`exactMoments_eq`.  So a first stage depends only on how often each sample has come, and it
succeeds exactly if no variance is beyond its limit: `rest_two_pass`.
-/

namespace ModelCar

variable {K : Type} [Field K]

/-! ### Two passes -/

/-- The sum of some values divided by their number. -/
def average (xs : List K) : K :=
  xs.sum / xs.length

/-- The sum of the squares of the distances of some values to their average. -/
def deviations (xs : List K) : K :=
  (xs.map fun x => (x - average xs) ^ 2).sum

/-- The mean square of the distances of some values to their average. -/
def populationVariance (xs : List K) : K :=
  deviations xs / xs.length

theorem average_perm {xs ys : List K} (h : xs.Perm ys) :
  average xs = average ys
  := by rw [average, average, h.sum_eq, h.length_eq]

theorem deviations_perm {xs ys : List K} (h : xs.Perm ys) :
  deviations xs = deviations ys
  := by
  rw [deviations, deviations, average_perm h]
  exact (h.map _).sum_eq

theorem sum_sq_sub (m : K) (xs : List K) :
  (xs.map fun x => (x - m) ^ 2).sum
    = (xs.map fun x => x ^ 2).sum - 2 * m * xs.sum + xs.length * m ^ 2
  := by
  induction xs with
  | nil => simp
  | cons x xs ih =>
      simp only [List.map_cons, List.sum_cons, ih, List.length_cons, Nat.cast_succ]
      ring

section
variable [CharZero K]

theorem length_mul_average (xs : List K) :
  xs.length * average xs = xs.sum
  := by
  obtain rfl | hne := eq_or_ne xs []
  · simp
  · have hlen : (xs.length : K) ≠ 0 := by
      rwa [Nat.cast_ne_zero, Ne, List.length_eq_zero_iff]
    exact mul_div_cancel₀ _ hlen

/-- The squares of the distances add up to what the squares of the values exceed those of the
average by. -/
theorem deviations_eq (xs : List K) :
  deviations xs = (xs.map fun x => x ^ 2).sum - xs.length * average xs ^ 2
  := by
  rw [deviations, sum_sq_sub, ← length_mul_average xs]
  ring

theorem succ_mul_average_concat (xs : List K) (x : K) :
  (xs.length + 1) * average (xs ++ [x]) = xs.length * average xs + x
  := by
  have h := length_mul_average (xs ++ [x])
  rwa [List.length_append, List.length_singleton, Nat.cast_succ, List.sum_append,
    List.sum_singleton, ← length_mul_average] at h

/-- One more value moves the average towards it. -/
theorem average_concat (xs : List K) (x : K) :
  average (xs ++ [x]) = average xs + (x - average xs) / ↑(xs.length + 1)
  := by
  have hpos : (xs.length : K) + 1 ≠ 0 := Nat.cast_add_one_ne_zero _
  have h := succ_mul_average_concat xs x
  rw [Nat.cast_succ]
  field_simp
  linear_combination h

/-- One more value adds the product of its distances to the averages with it and without. -/
theorem deviations_concat (xs : List K) (x : K) :
  deviations (xs ++ [x])
    = deviations xs + (x - average xs) * (x - average (xs ++ [x]))
  := by
  have h := succ_mul_average_concat xs x
  simp only [deviations_eq, List.map_append, List.sum_append, List.map_singleton,
    List.sum_singleton, List.length_append, List.length_singleton, Nat.cast_succ]
  linear_combination (-average (xs ++ [x]) - average xs) * h

end

/-! ### One pass -/

variable [LinearOrder K] (sqrt : K → K)

/-- The moments of some values in exact arithmetic. -/
def exactMoments (xs : List K) : Moments K :=
  @Moments.ofList K (exactScalar sqrt) xs

section
variable [IsStrictOrderedRing K]

/-- What is collected from the values one by one is what two passes over them give. -/
theorem exactMoments_eq (xs : List K) :
  exactMoments sqrt xs = ⟨xs.length, average xs, deviations xs⟩
  := by
  induction xs using List.reverseRecOn with
  | nil =>
      show (⟨0, (0.0 : K), (0.0 : K)⟩ : Moments K) = _
      norm_num [average, deviations]
  | append_singleton xs x ih =>
      -- The step from one list to the next is the same on both sides, since the averages and
      -- the deviations of a list obey the recurrence of the moments.
      calc exactMoments sqrt (xs ++ [x])
          = @Moments.push K (exactScalar sqrt) (exactMoments sqrt xs) x :=
            @Moments.ofList_concat K (exactScalar sqrt) xs x
        _ = ⟨(xs ++ [x]).length, average (xs ++ [x]), deviations (xs ++ [x])⟩ := by
            rw [ih, deviations_concat, average_concat, List.length_append]
            rfl

theorem variance_exactMoments (xs : List K) :
  @Moments.variance K (exactScalar sqrt) (exactMoments sqrt xs) = populationVariance xs
  := by
  rw [exactMoments_eq]
  rfl

theorem exactMoments_perm {xs ys : List K} (h : xs.Perm ys) :
  exactMoments sqrt xs = exactMoments sqrt ys
  := by
  rw [exactMoments_eq, exactMoments_eq, h.length_eq, average_perm h, deviations_perm h]

end

/-! ### A calibration at rest -/

/-- Samples and sums over them in the same numbers. -/
@[reducible]
def exactPrecision (K : Type) : Precision K K := ⟨id, id⟩

namespace Calibration

/-- The values of every coordinate of a vector of the samples. -/
def coordinates (p : Sample K → Vector3 K) (fed : List (Sample K)) : Vector3 (List K) :=
  ⟨fed.map fun s => (p s).x, fed.map fun s => (p s).y, fed.map fun s => (p s).z⟩

/-- The averages of the coordinates of a vector of the samples. -/
def averages (p : Sample K → Vector3 K) (fed : List (Sample K)) : Vector3 K :=
  (coordinates p fed).map average

/-- The variances of the coordinates of a vector of the samples. -/
def variances (p : Sample K → Vector3 K) (fed : List (Sample K)) : Vector3 K :=
  (coordinates p fed).map populationVariance

/-- The samples vary no more than the limits of a mode allow. -/
structure AtRest (mode : Mode) (fed : List (Sample K)) : Prop where
  rate : ∀ v ∈ (variances Sample.rate fed).toList, v ≤ 1 / 2
  acceleration : mode = .full → ∀ v ∈ (variances Sample.acceleration fed).toList, v ≤ 1 / 100

/-- A calibration that is started for a number of samples and is given some, in exact
arithmetic. -/
def exactRun (c : Calibration K K) (mode : Mode) (samples : Nat) (fed : List (Sample K)) :
    Except Refusal (Calibration K K) :=
  letI := exactScalar sqrt
  letI := exactPrecision K
  (c.start mode samples).map fun started => fed.foldl feed started

/-- The moments of every axis of a vector of the samples, in exact arithmetic. -/
def exactAxes (p : Sample K → Vector3 K) (fed : List (Sample K)) : Vector3 (Moments K) :=
  @axes K K (exactScalar sqrt) (exactPrecision K) p fed

/-- A calibration after its last sample, in exact arithmetic. -/
def exactEnd (c : Calibration K K) (mode : Mode) (fed : List (Sample K)) : Calibration K K :=
  letI := exactScalar sqrt
  letI := exactPrecision K
  (c.collecting mode fed.length fed).finish

/-- The data that a first stage leads to if it succeeds, in exact arithmetic. -/
def exactFound (mode : Mode) (d : CalibrationData K) (fed : List (Sample K)) :
    CalibrationData K :=
  @foundAtRest K K (exactScalar sqrt) (exactPrecision K) mode d fed

theorem exactAxes_eq (p : Sample K → Vector3 K) (fed : List (Sample K)) :
  exactAxes sqrt p fed = (coordinates p fed).map (exactMoments sqrt)
  := rfl

theorem exactRun_eq {mode : Mode} {fed : List (Sample K)} (hmode : mode ≠ .forward)
    (hne : fed ≠ []) (c : Calibration K K) :
  exactRun sqrt c mode fed.length fed = .ok (exactEnd sqrt c mode fed)
  := by
  let := exactScalar sqrt
  let := exactPrecision K
  have hpos : 0 < fed.length := List.length_pos_iff.mpr hne
  rw [exactRun, start_rest hmode, if_neg hpos.ne', Except.map, foldl_feed c mode hpos,
    if_neg (lt_irrefl _), List.take_length]
  rfl

variable [IsStrictOrderedRing K]

theorem means_exactAxes (p : Sample K → Vector3 K) (fed : List (Sample K)) :
  means (exactAxes sqrt p fed) = averages p fed
  := by
  simp only [means, exactAxes_eq, Vector3.map, exactMoments_eq]
  rfl

theorem not_varies_exactAxes (limit : K) (p : Sample K → Vector3 K)
    (fed : List (Sample K)) :
  ¬ @varies K (exactScalar sqrt) limit (exactAxes sqrt p fed) ↔
    ∀ v ∈ (variances p fed).toList, v ≤ limit
  := by
  simp [varies, Vector3.any, exactAxes_eq, Vector3.map, variance_exactMoments, variances,
    Vector3.toList, and_assoc]

/-- The car has not moved exactly if the variances of its samples are within the limits. -/
theorem not_moved_exact_iff {mode : Mode} {fed : List (Sample K)} :
  ¬ @Moved K K (exactScalar sqrt) (exactPrecision K) mode fed ↔ AtRest mode fed
  := by
  have hrate : @rateVarianceLimit K (exactScalar sqrt) = 1 / 2 := by
    show (0.5 : K) = 1 / 2
    norm_num
  have hacceleration : @accelerationVarianceLimit K (exactScalar sqrt) = 1 / 100 := by
    show (0.01 : K) = 1 / 100
    norm_num
  rw [Moved, not_or, not_and, hrate, hacceleration]
  constructor
  · rintro ⟨h, hfull⟩
    constructor
    · exact (not_varies_exactAxes ..).mp h
    · intro hmode
      exact (not_varies_exactAxes ..).mp (hfull hmode)
  · rintro ⟨h, hfull⟩
    constructor
    · exact (not_varies_exactAxes ..).mpr h
    · intro hmode
      exact (not_varies_exactAxes ..).mpr (hfull hmode)

theorem rateBias_exactFound (mode : Mode) (d : CalibrationData K) (fed : List (Sample K)) :
  (exactFound sqrt mode d fed).rateBias = averages Sample.rate fed
  := by
  rw [← means_exactAxes sqrt, exactFound, foundAtRest]
  split
  · rfl
  · rfl

theorem expectedGravity_exact (mean : Vector3 K) :
  (@expectedGravity K (exactScalar sqrt) mean).z = if 0 ≤ mean.z then 1 else -1
  := by
  show (if (0.0 : K) ≤ mean.z then (1.0 : K) else -(1.0 : K)) = _
  norm_num

/-- In full mode gravity along the third axis is taken away from the mean acceleration. -/
theorem accelerationBias_exactFound (d : CalibrationData K) (fed : List (Sample K)) :
  (exactFound sqrt .full d fed).accelerationBias =
    (averages Sample.acceleration fed).zipWith (· - ·)
      ⟨0, 0, if 0 ≤ (averages Sample.acceleration fed).z then 1 else -1⟩
  := by
  rw [← means_exactAxes sqrt, ← expectedGravity_exact sqrt]
  simp only [Vector3.zipWith, sub_zero]
  rfl

theorem exactAxes_perm (p : Sample K → Vector3 K) {fed other : List (Sample K)}
    (h : other.Perm fed) :
  exactAxes sqrt p other = exactAxes sqrt p fed
  := by
  simp only [exactAxes_eq, coordinates, Vector3.map]
  congr 1
  all_goals
    apply exactMoments_perm
    apply h.map

/-! ### The end of a first stage -/

variable {mode : Mode} {fed other : List (Sample K)} (hmode : mode ≠ .forward)
include hmode

theorem exactEnd_of_not_atRest (h : ¬ AtRest mode fed) (c : Calibration K K) :
  (exactEnd sqrt c mode fed).status = .failed ∧ (exactEnd sqrt c mode fed).data = c.data
  := by
  let := exactScalar sqrt
  let := exactPrecision K
  have hmoved : Moved K mode fed := by
    rwa [← not_moved_exact_iff sqrt, not_not] at h
  rw [exactEnd, finish_of_moved hmode hmoved]
  exact ⟨rfl, rfl⟩

theorem exactEnd_of_atRest (h : AtRest mode fed) (c : Calibration K K) :
  (exactEnd sqrt c mode fed).status = .done ∧
    (exactEnd sqrt c mode fed).data = exactFound sqrt mode c.data fed
  := by
  let := exactScalar sqrt
  let := exactPrecision K
  rw [exactEnd, finish_of_not_moved hmode ((not_moved_exact_iff sqrt).mpr h)]
  exact ⟨rfl, rfl⟩

/-- The end does not depend on the order of the samples. -/
theorem exactEnd_perm (h : other.Perm fed) (c : Calibration K K) :
  exactEnd sqrt c mode other = exactEnd sqrt c mode fed
  := by
  let := exactScalar sqrt
  let := exactPrecision K
  -- The steps do not commute on all tallies, so the order is forgotten in the moments of the
  -- axes, which are all that a tally keeps.
  have haxes (p : Sample K → Vector3 K) :
      (axes p other : Vector3 (Moments K)) = axes p fed := exactAxes_perm sqrt p h
  have htally : (Tally.ofList mode c.data other : Tally K K) = Tally.ofList mode c.data fed := by
    rw [ofList_rest hmode, ofList_rest hmode, haxes]
    split
    · rw [haxes]
    · rfl
  rw [exactEnd, exactEnd, collecting, collecting, htally, h.length_eq]

/-- In exact arithmetic a first stage that is given as many samples as it was started for
succeeds exactly if the variance of every rate is at most `1 / 2`, and in full mode that of
every acceleration at most `1 / 100`.  Then the biases are the mean rate, and in full mode
what is left of the mean acceleration without gravity along the third axis; otherwise it
fails, and the data stay.  The order of the samples does not matter. -/
theorem rest_two_pass (hne : fed ≠ []) (c : Calibration K K) :
  ∃ ended, exactRun sqrt c mode fed.length fed = .ok ended ∧
    (ended.status = .done ↔ AtRest mode fed) ∧
    (¬ AtRest mode fed → ended.status = .failed ∧ ended.data = c.data) ∧
    (AtRest mode fed →
      ended.data.rateBias = averages Sample.rate fed ∧
      (mode = .full → ended.data.accelerationBias =
        (averages Sample.acceleration fed).zipWith (· - ·)
          ⟨0, 0, if 0 ≤ (averages Sample.acceleration fed).z then 1 else -1⟩)) ∧
    ∀ other, other.Perm fed → exactRun sqrt c mode fed.length other = .ok ended
  := by
  have hmoved (h : ¬ AtRest mode fed) := exactEnd_of_not_atRest sqrt hmode h c
  have hrest (h : AtRest mode fed) := exactEnd_of_atRest sqrt hmode h c
  refine ⟨exactEnd sqrt c mode fed, exactRun_eq sqrt hmode hne c, ?_, hmoved, ?_, ?_⟩
  · constructor
    · intro hdone
      by_contra h
      rw [(hmoved h).1] at hdone
      cases hdone
    · intro h
      exact (hrest h).1
  · intro h
    rw [(hrest h).2]
    use rateBias_exactFound sqrt mode c.data fed
    rintro rfl
    apply accelerationBias_exactFound
  · intro other h
    have hother : other ≠ [] := fun hnil => hne (hnil ▸ h).nil_eq.symm
    rw [← exactEnd_perm sqrt hmode h, ← h.length_eq]
    exact exactRun_eq sqrt hmode hother c

omit hmode

/-- The samples of a car that turns slowly, on an uneven ground. -/
def slowTurn : List (Sample ℚ) :=
  [⟨⟨0, 0, 1⟩, ⟨1, 0, 0⟩⟩, ⟨⟨0, 0, 11 / 10⟩, ⟨2, 0, 0⟩⟩]

theorem rest_two_pass_slowTurn :
  (Mode.full ≠ .forward ∧ slowTurn ≠ [] ∧ AtRest .full slowTurn) ∧
    let unset := @unset ℚ (exactScalar id) ℚ (exactScalar id)
    ∃ ended, exactRun id unset .full 2 slowTurn = .ok ended ∧
      ended.status = .done ∧ ended.data.rateBias = ⟨3 / 2, 0, 0⟩ ∧
      ended.data.accelerationBias = ⟨0, 0, 1 / 20⟩ ∧
      exactRun id unset .full 2 slowTurn.reverse = .ok ended
  := by
  have hne : slowTurn ≠ [] := by rintro ⟨⟩
  have hmode : Mode.full ≠ .forward := by rintro ⟨⟩
  have hrest : AtRest .full slowTurn := by
    constructor
    · decide +kernel
    · intro
      decide +kernel
  refine ⟨⟨hmode, hne, hrest⟩, ?_⟩
  obtain ⟨ended, hrun, hdone, -, hfound, horder⟩ := rest_two_pass id hmode hne _
  obtain ⟨hrate, hacceleration⟩ := hfound hrest
  refine ⟨ended, hrun, hdone.mpr hrest, ?_, ?_, horder _ slowTurn.reverse_perm⟩
  · rw [hrate]
    decide +kernel
  · rw [hacceleration rfl]
    decide +kernel

end Calibration

end ModelCar
