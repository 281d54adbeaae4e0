import ModelCar.Proofs.Number.Exact
import ModelCar.Proofs.Stabilization.Course

/-!
# The controller over whole runs

Between its steps a controller is reset and given other gains.  In exact arithmetic every step
with a positive time leaves the integral and the output within the bounds of the gains in
force, however large the integral was before; a step with no positive time might as well not
have been taken: `saturated_over_runs`.
-/

namespace ModelCar.Pid

/-! ### Runs -/

/-- Something that is done with a controller. -/
inductive Operation (α : Type) where
  | step (error seconds : α)
  | reset
  | setGains (gains : Gains α)

/-- The gains that an operation sets. -/
def Operation.gains? {α : Type} : Operation α → Option (Gains α)
  | .setGains gains => some gains
  | _ => none

/-- The gains after a run. -/
def gainsAfter {α : Type} (gains : Gains α) (run : List (Operation α)) : Gains α :=
  (run.filterMap Operation.gains?).getLast?.getD gains

section
variable {α : Type} [Scalar α]

/-- The output of a step, and the controller after an operation. -/
def perform (p : Pid α) : Operation α → Option α × Pid α
  | .step error seconds => (some (p.step error seconds).1, (p.step error seconds).2)
  | .reset => (none, p.reset)
  | .setGains gains => (none, { p with gains })

/-- The controller after a run of operations. -/
def after (p : Pid α) (run : List (Operation α)) : Pid α :=
  run.foldl (fun p op => (p.perform op).2) p

/-- The operations of a run, each with its output. -/
def outputs (p : Pid α) : List (Operation α) → List (Operation α × Option α)
  | [] => []
  | op :: run => (op, (p.perform op).1) :: (p.perform op).2.outputs run

theorem after_append (p : Pid α) (run more : List (Operation α)) :
  p.after (run ++ more) = (p.after run).after more
  := List.foldl_append

theorem perform_gains (p : Pid α) (op : Operation α) :
  (p.perform op).2.gains = op.gains?.getD p.gains
  := by
  cases op with
  | step error seconds => exact step_gains p error seconds
  | reset => rfl
  | setGains gains => rfl

/-- The gains are those that were set last. -/
theorem after_gains (p : Pid α) (run : List (Operation α)) :
  (p.after run).gains = gainsAfter p.gains run
  := by
  induction run using List.reverseRecOn with
  | nil => rfl
  | append_singleton run op ih =>
      have hlast : (p.after (run ++ [op])).gains = op.gains?.getD (p.after run).gains := by
        rw [after_append]
        exact perform_gains (p.after run) op
      rw [hlast, ih, gainsAfter, gainsAfter, List.filterMap_append]
      cases h : op.gains? with
      | none => simp [h]
      | some gains => simp [h]

/-! ### Steps that do nothing -/

/-- Operations that never change a controller can be left out of a run. -/
theorem after_filter {keep : Operation α → Bool}
    (h : ∀ (p : Pid α) op, ¬ keep op → (p.perform op).2 = p) (p : Pid α)
    (run : List (Operation α)) :
  p.after (run.filter keep) = p.after run
  := by
  induction run generalizing p with
  | nil => rfl
  | cons op run ih =>
      by_cases hop : keep op
      · rw [List.filter_cons_of_pos hop]
        exact ih _
      · rw [List.filter_cons_of_neg hop, ih, after, after, List.foldl_cons, h p op hop]

/-- The other operations have the same outputs without them. -/
theorem outputs_filter {keep : Operation α → Bool}
    (h : ∀ (p : Pid α) op, ¬ keep op → (p.perform op).2 = p) (p : Pid α)
    (run : List (Operation α)) :
  p.outputs (run.filter keep) = (p.outputs run).filter fun x => keep x.1
  := by
  induction run generalizing p with
  | nil => rfl
  | cons op run ih =>
      by_cases hop : keep op
      · rw [List.filter_cons_of_pos hop, outputs, ih]
        exact (List.filter_cons_of_pos (p := fun x : Operation α × _ => keep x.1) hop).symm
      · rw [List.filter_cons_of_neg hop, ih, outputs, h p op hop]
        exact (List.filter_cons_of_neg (p := fun x : Operation α × _ => keep x.1) hop).symm

end

/-! ### Exact arithmetic -/

section
variable {K : Type} [Field K] [LinearOrder K] (sqrt : K → K)

/-- A controller at the start in exact arithmetic. -/
def exactStart (gains : Gains K) : Pid K :=
  @start K (exactScalar sqrt) gains

/-- The output of a step in exact arithmetic, and the controller after it. -/
def exactStep (p : Pid K) (error seconds : K) : K × Pid K :=
  @step K (exactScalar sqrt) p error seconds

/-- The controller after a run in exact arithmetic. -/
def exactAfter (p : Pid K) (run : List (Operation K)) : Pid K :=
  @after K (exactScalar sqrt) p run

/-- The operations of a run, each with its output in exact arithmetic. -/
def exactOutputs (p : Pid K) (run : List (Operation K)) : List (Operation K × Option K) :=
  @outputs K (exactScalar sqrt) p run

/-- Everything counts but a step with no positive time. -/
def Operation.counts : Operation K → Bool
  | .step _ seconds => 0 < seconds
  | _ => true

/-- `x` held within a bound of either sign. -/
def within (bound x : K) : K :=
  max (-|bound|) (min |bound| x)

variable [IsStrictOrderedRing K]

theorem abs_within_le (bound x : K) :
  |within bound x| ≤ |bound|
  := abs_max_min_le (abs_nonneg bound) x

theorem confine_exact (bound x : K) :
  @confine K (exactScalar sqrt) bound x = within bound x
  := clamp_exact sqrt (neg_le_self (abs_nonneg bound)) x

theorem zero_exact :
  (0.0 : K) = 0
  := by norm_num

theorem exactStep_of_pos (p : Pid K) (error : K) {seconds : K} (h : 0 < seconds) :
  exactStep sqrt p error seconds =
    let integral := within p.gains.maxIntegral (p.integral + error * seconds)
    (within p.gains.maxOutput (p.gains.proportional * error + p.gains.integral * integral
      + p.gains.derivative * @slope K (exactScalar sqrt) p error seconds),
      ⟨p.gains, integral, some error⟩)
  := by
  let := exactScalar sqrt
  have hpos : ¬ (Scalar.isNaN seconds ∨ seconds ≤ (0.0 : K)) := by
    rw [zero_exact]
    rintro (hnan | hle)
    · cases hnan
    · exact absurd h (not_lt.mpr hle)
  rw [exactStep, step, if_neg hpos]
  simp only [confine_exact]

theorem exactStep_of_not_pos (p : Pid K) (error : K) {seconds : K} (h : ¬ 0 < seconds) :
  (exactStep sqrt p error seconds).2 = p
  := by
  let := exactScalar sqrt
  have hle : Scalar.isNaN seconds ∨ seconds ≤ (0.0 : K) := by
    rw [zero_exact]
    exact .inr (not_lt.mp h)
  rw [exactStep, step, if_pos hle]

/-- An operation that does not count changes nothing. -/
theorem perform_of_not_counts (p : Pid K) {op : Operation K} (h : ¬ op.counts) :
  (@perform K (exactScalar sqrt) p op).2 = p
  := by
  cases op with
  | step error seconds => exact exactStep_of_not_pos sqrt p error (mt decide_eq_true h)
  | reset => cases h rfl
  | setGains gains => cases h rfl

/-! ### The first step -/

/-- The run has no step with a positive time. -/
def IsIdle (run : List (Operation K)) : Prop :=
  ∀ error seconds, .step error seconds ∈ run → ¬ 0 < seconds

/-- Until the first step with a positive time there is no error to compare with. -/
theorem exactAfter_previous {p : Pid K} (hp : p.previous = none) {idle : List (Operation K)}
    (h : IsIdle idle) :
  (exactAfter sqrt p idle).previous = none
  := by
  induction idle generalizing p with
  | nil => exact hp
  | cons op idle ih =>
      have hidle : IsIdle idle := fun error seconds hmem =>
        h error seconds (List.mem_cons_of_mem op hmem)
      apply ih _ hidle
      cases op with
      | step error seconds =>
          have hnot := h error seconds (List.mem_cons_self ..)
          exact (congrArg previous (exactStep_of_not_pos sqrt p error hnot)).trans hp
      | reset => rfl
      | setGains gains => exact hp

/-- The output of the first step has no part from the derivative. -/
theorem exactStep_of_no_previous {p : Pid K} (hp : p.previous = none) (error : K) {seconds : K}
    (h : 0 < seconds) :
  (exactStep sqrt p error seconds).1 =
    within p.gains.maxOutput (p.gains.proportional * error
      + p.gains.integral * (exactStep sqrt p error seconds).2.integral)
  := by
  let := exactScalar sqrt
  have hslope : p.slope error seconds = 0 := by
    rw [slope, hp]
    exact zero_exact
  rw [exactStep_of_pos sqrt p error h, hslope]
  simp only [mul_zero, add_zero]

/-- The output and the integral of a step lie within the bounds of some gains. -/
structure Within (gains : Gains K) (stepped : K × Pid K) : Prop where
  output : |stepped.1| ≤ |gains.maxOutput|
  integral : |stepped.2.integral| ≤ |gains.maxIntegral|

/-- In exact arithmetic a step with a positive time, after whatever has been done with the
controller, leaves integral and output within the bounds of the gains that were set last.  The
first such step since the controller was made or reset has no part from the derivative.  All
steps without a positive time can be left out of a run, and neither the outputs of the others
nor the controller at the end are different. -/
theorem saturated_over_runs (p : Pid K) (run : List (Operation K)) :
  (∀ error seconds, 0 < seconds →
    Within (gainsAfter p.gains run) (exactStep sqrt (exactAfter sqrt p run) error seconds)) ∧
  (∀ gains idle, IsIdle idle →
    ∀ fresh, fresh = exactAfter sqrt (exactStart sqrt gains) idle ∨
      fresh = exactAfter sqrt p (run ++ .reset :: idle) →
    ∀ error seconds, 0 < seconds →
      (exactStep sqrt fresh error seconds).1 =
        within fresh.gains.maxOutput (fresh.gains.proportional * error
          + fresh.gains.integral * (exactStep sqrt fresh error seconds).2.integral)) ∧
  exactOutputs sqrt p (run.filter Operation.counts) =
    (exactOutputs sqrt p run).filter (fun x => x.1.counts) ∧
  exactAfter sqrt p (run.filter Operation.counts) = exactAfter sqrt p run
  := by
  let := exactScalar sqrt
  refine ⟨?_, ?_, ?_, ?_⟩
  · intro error seconds h
    have hgains : (exactAfter sqrt p run).gains = gainsAfter p.gains run := after_gains p run
    rw [← hgains, exactStep_of_pos sqrt _ error h]
    exact ⟨abs_within_le _ _, abs_within_le _ _⟩
  · intro gains idle hidle fresh hfresh error seconds h
    apply exactStep_of_no_previous sqrt _ error h
    obtain rfl | rfl := hfresh
    · exact exactAfter_previous sqrt rfl hidle
    · have hreset : exactAfter sqrt p (run ++ .reset :: idle) =
          exactAfter sqrt (reset (after p run)) idle := after_append p run _
      rw [hreset]
      exact exactAfter_previous sqrt rfl hidle
  · exact outputs_filter (fun p _ => perform_of_not_counts sqrt p) p run
  · exact after_filter (fun p _ => perform_of_not_counts sqrt p) p run

end

/-- Bounds that are narrower than what the integral has become, one of them negative. -/
def narrow : Gains ℚ :=
  ⟨0, 1, 1, -1 / 2, 1 / 4⟩

/-- A long step, the narrow bounds, and a step without time. -/
def narrowed : List (Operation ℚ) :=
  [.step 10 1, .setGains narrow, .step 7 0]

theorem saturated_over_runs_narrowed :
  let p := exactStart id ⟨1, 1, 1, 2, 3⟩
  let fresh := exactAfter id p (narrowed ++ .reset :: [.step 7 0])
  (exactAfter id p narrowed).integral = 2 ∧ (0 : ℚ) < 1 ∧
    Within narrow (exactStep id (exactAfter id p narrowed) 1 1) ∧
    IsIdle [.step (7 : ℚ) 0] ∧ (exactStep id fresh 1 1).1 = 1 / 4
  := by
  intro p fresh
  obtain ⟨hwithin, hfirst, -⟩ := saturated_over_runs id p narrowed
  have hidle : IsIdle [.step (7 : ℚ) 0] := by
    intro error seconds hmem
    cases List.mem_singleton.mp hmem
    exact lt_irrefl 0
  have houtput := hfirst narrow [.step 7 0] hidle fresh (.inr rfl) 1 1 one_pos
  refine ⟨by decide +kernel, one_pos, hwithin 1 1 one_pos, hidle, ?_⟩
  rw [houtput]
  decide +kernel

end ModelCar.Pid
