import ModelCar.Proofs.Number.Exact
import ModelCar.Proofs.Stabilization.Course

/-!
# The authority of the stabilizer

In exact arithmetic the weight of the stabilizer lies between zero and one, and it fades
no faster than its tuning says.  Its corrections are bounded before they are weighed, and
bringing the sum to the range of positions moves it no farther away from a command that
is a position.  So a target is never farther from the command than the weighed bounds.
-/

namespace ModelCar

/-! ### Bounds in exact arithmetic -/

/-- A bound counts with its size. -/
theorem abs_confine_le (b x : ℝ) :
  |@Pid.confine ℝ realScalar b x| ≤ |b|
  := by
  have hconfine : @Pid.confine ℝ realScalar b x = max (-|b|) (min |b| x) :=
    clamp_exact Real.sqrt (neg_le_self (abs_nonneg b)) x
  rw [hconfine]
  exact abs_max_min_le (abs_nonneg b) x

/-- Bringing a number to the range takes it no farther away from a position. -/
theorem abs_clampUnit_sub_le {x c : ℝ} (hc : |c| ≤ 1) :
  |@Scalar.clampUnit ℝ realScalar x - c| ≤ |x - c|
  := by
  rw [clampUnit_real]
  nth_rewrite 1 [← max_min_of_abs_le hc]
  rw [max_comm (-1), max_comm (-1), min_comm 1, min_comm 1]
  calc |max (min x 1) (-1) - max (min c 1) (-1)|
      ≤ |min x 1 - min c 1| := abs_max_sub_max_le_abs _ _ _
    _ ≤ |x - c| := by
      have := abs_min_sub_min_le_max x 1 c 1
      rwa [sub_self, abs_zero, max_eq_left (abs_nonneg _)] at this

/-- The output of the controller is bounded. -/
theorem abs_pid_step_le (p : Pid ℝ) (error seconds : ℝ) :
  |(@Pid.step ℝ realScalar p error seconds).1| ≤ |p.gains.maxOutput|
  := by
  unfold Pid.step
  split
  · show |(0.0 : ℝ)| ≤ _
    norm_num only [abs_zero]
    apply abs_nonneg
  · apply abs_confine_le

/-- A number that is held above zero is not negative. -/
theorem clamp_real_nonneg {hi : ℝ} (x : ℝ) (hhi : 0 ≤ hi) :
  0 ≤ @Scalar.clamp ℝ realScalar 0.0 hi x
  := by
  show 0 ≤ (if x < (0.0 : ℝ) then (0.0 : ℝ) else if hi < x then hi else x)
  norm_num only
  split
  · exact le_rfl
  · split
    · exact hhi
    · linarith

/-- A number in its range stays as it is. -/
theorem within_real {lo hi x : ℝ} (fallback : ℝ) (hlo : lo ≤ x) (hhi : x ≤ hi) :
  @Tuning.within ℝ realScalar lo hi fallback x = x
  := by
  show (if x < lo then lo else if hi < x then hi else x) = x
  rw [if_neg (not_lt.mpr hlo), if_neg (not_lt.mpr hhi)]

namespace Stabilizer

variable {s : Stabilizer ℝ}

/-! ### The weight -/

/-- The change of the weight in a time. -/
theorem fadeStep_real (t : Tuning ℝ) (elapsed : Millis) :
  @fadeStep ℝ realScalar t elapsed =
    if t.fade = 0 then 1 else (elapsed.toNat : ℝ) / t.fade.toNat
  := by
  show (if t.fade = 0 then (1.0 : ℝ) else (elapsed.toNat : ℝ) / t.fade.toNat) = _
  norm_num only

theorem fadeStep_nonneg (t : Tuning ℝ) (elapsed : Millis) :
  0 ≤ @fadeStep ℝ realScalar t elapsed
  := by
  rw [fadeStep_real]
  split
  · norm_num
  · positivity

/-- The weight fades towards one or towards zero, and not beyond. -/
theorem fadedWeight_real (s : Stabilizer ℝ) (wanted : Bool) (elapsed : Millis) :
  @fadedWeight ℝ realScalar s wanted elapsed =
    if wanted then min 1 (s.weight + @fadeStep ℝ realScalar s.tuning elapsed)
    else max 0 (s.weight - @fadeStep ℝ realScalar s.tuning elapsed)
  := by
  show (if wanted then
      if s.weight + @fadeStep ℝ realScalar s.tuning elapsed < (1.0 : ℝ) then
        s.weight + @fadeStep ℝ realScalar s.tuning elapsed
      else (1.0 : ℝ)
    else
      if (0.0 : ℝ) < s.weight - @fadeStep ℝ realScalar s.tuning elapsed then
        s.weight - @fadeStep ℝ realScalar s.tuning elapsed
      else (0.0 : ℝ)) = _
  norm_num only
  split
  · split
    · rw [min_eq_right (by linarith)]
    · rw [min_eq_left (by linarith)]
  · split
    · rw [max_eq_right (by linarith)]
    · rw [max_eq_left (by linarith)]

/-- From a weight between zero and one the weight stays there, and it moves by no more
than a step. -/
theorem fadedWeight_bounds (h0 : 0 ≤ s.weight) (h1 : s.weight ≤ 1) (wanted : Bool)
    (elapsed : Millis) :
  0 ≤ @fadedWeight ℝ realScalar s wanted elapsed ∧
    @fadedWeight ℝ realScalar s wanted elapsed ≤ 1 ∧
    |@fadedWeight ℝ realScalar s wanted elapsed - s.weight|
      ≤ @fadeStep ℝ realScalar s.tuning elapsed
  := by
  have hstep := fadeStep_nonneg s.tuning elapsed
  rw [fadedWeight_real]
  split
  · refine ⟨le_min (by norm_num) (by linarith), min_le_left _ _, abs_le.mpr ⟨?_, ?_⟩⟩
    · rw [neg_le_sub_iff_le_add, ← sub_le_iff_le_add]
      exact le_min (by linarith) (by linarith)
    · rw [sub_le_iff_le_add']
      exact min_le_right _ _
  · refine ⟨le_max_left _ _, max_le (by norm_num) (by linarith), abs_le.mpr ⟨?_, ?_⟩⟩
    · rw [neg_le_sub_iff_le_add, ← sub_le_iff_le_add]
      exact le_max_right _ _
    · rw [sub_le_iff_le_add']
      exact max_le (by linarith) (by linarith)

/-! ### A step -/

/-- With a weight that has faded to zero, a step leaves the command as it is and starts the
controller afresh. -/
theorem step_faded {trusted : Bool} {input : Input ℝ} {elapsed : Millis}
    (hw : @fadedWeight ℝ realScalar s (s.tuning.enabled && trusted) elapsed = 0) :
  @step ℝ realScalar s trusted input elapsed =
    ((input.throttle, input.steering), ⟨s.tuning, @Pid.start ℝ realScalar s.pid.gains, 0⟩)
  := by
  rw [← hw]
  apply if_pos
  show _ ≤ (0.0 : ℝ)
  norm_num only
  exact hw.le

/-- With any other weight, a step brings the command with the weighed corrections to the
range of positions. -/
theorem step_weighed {trusted : Bool} {input : Input ℝ} {elapsed : Millis} {w : ℝ}
    (hw : @fadedWeight ℝ realScalar s (s.tuning.enabled && trusted) elapsed = w)
    (h : 0 < w) :
  ∃ x y pid, |x| ≤ |s.tuning.maxPitchCorrection| ∧ |y| ≤ |s.pid.gains.maxOutput| ∧
    pid.gains = s.pid.gains ∧
    @step ℝ realScalar s trusted input elapsed =
      ((@Scalar.clampUnit ℝ realScalar
          (if s.tuning.pitchEnabled then input.throttle + w * x else input.throttle),
        @Scalar.clampUnit ℝ realScalar (input.steering + w * y)), ⟨s.tuning, pid, w⟩)
  := by
  subst hw
  refine ⟨_, _, _, abs_confine_le _ _, abs_pid_step_le _ _ _,
    @Pid.step_gains ℝ realScalar _ _ _, if_neg ?_⟩
  show ¬ _ ≤ (0.0 : ℝ)
  norm_num only
  exact not_le.mpr h

/-- What holds of the stabilizer at all times. -/
structure Kept (s : Stabilizer ℝ) : Prop where
  weight_nonneg : 0 ≤ s.weight
  weight_le : s.weight ≤ 1
  gains : s.pid.gains = s.tuning.gains
  correction_nonneg : 0 ≤ s.tuning.maxCorrection
  pitch_nonneg : 0 ≤ s.tuning.maxPitchCorrection
  off : s.weight = 0 → s.pid = @Pid.start ℝ realScalar s.tuning.gains

theorem kept_start :
  (@start ℝ realScalar).Kept
  := by
  constructor
  · show 0 ≤ (0.0 : ℝ)
    norm_num
  · show (0.0 : ℝ) ≤ 1
    norm_num
  · rfl
  · show 0 ≤ (0.3 : ℝ)
    norm_num
  · show 0 ≤ (0.25 : ℝ)
    norm_num
  · intro _
    rfl

/-- Only the gains of the controller change with the tuning. -/
theorem Kept.ask (h : s.Kept) (t : Tuning ℝ) :
  (@Stabilizer.ask ℝ realScalar s t).Kept
  := by
  unfold Stabilizer.ask
  split
  · constructor
    · exact h.weight_nonneg
    · exact h.weight_le
    · rfl
    · exact clamp_real_nonneg _ (show 0 ≤ (1.0 : ℝ) by norm_num)
    · exact clamp_real_nonneg _ (show 0 ≤ (0.5 : ℝ) by norm_num)
    · intro hw
      rw [retune, h.off hw]
      rfl
  · exact h

theorem Kept.askAll (h : s.Kept) (asked : List (Tuning ℝ)) :
  (@Stabilizer.askAll ℝ realScalar s asked).Kept
  := by
  induction asked generalizing s with
  | nil => exact h
  | cons t asked ih => exact ih (h.ask t)

/-- What a step does at most: the weight stays in its range and fades with the tuning, and
the target is no farther from the command than the weighed bounds. -/
structure Bounded (s : Stabilizer ℝ) (input : Input ℝ) (elapsed : Millis) (target : ℝ × ℝ)
    (s' : Stabilizer ℝ) : Prop where
  weight_nonneg : 0 ≤ s'.weight
  weight_le : s'.weight ≤ 1
  fades : s'.tuning.fade ≠ 0 →
    |s'.weight - s.weight| ≤ (elapsed.toNat : ℝ) / s'.tuning.fade.toNat
  steering : |target.2 - input.steering| ≤ s'.weight * s'.tuning.maxCorrection
  throttle : |target.1 - input.throttle| ≤ s'.weight * s'.tuning.maxPitchCorrection
  level : ¬ s'.tuning.pitchEnabled → target.1 = input.throttle
  off : s'.weight = 0 →
    target = (input.throttle, input.steering) ∧
      s'.pid = @Pid.start ℝ realScalar s'.tuning.gains

/-- A correction within its bound, with a weight, takes a position no farther away than the
weighed bound. -/
theorem abs_corrected_sub_le {c w x b : ℝ} (hc : |c| ≤ 1) (hw : 0 ≤ w) (hb : 0 ≤ b)
    (hx : |x| ≤ |b|) :
  |@Scalar.clampUnit ℝ realScalar (c + w * x) - c| ≤ w * b
  := by
  calc |@Scalar.clampUnit ℝ realScalar (c + w * x) - c|
      ≤ |c + w * x - c| := abs_clampUnit_sub_le hc
    _ = w * |x| := by rw [add_sub_cancel_left, abs_mul, abs_of_nonneg hw]
    _ ≤ w * b := mul_le_mul_of_nonneg_left (hx.trans_eq (abs_of_nonneg hb)) hw

/-- A step with a weight that has faded to zero is bounded. -/
theorem Kept.step_of_zero (h : s.Kept) {trusted : Bool} {input : Input ℝ} {elapsed : Millis}
    (hw : @fadedWeight ℝ realScalar s (s.tuning.enabled && trusted) elapsed = 0)
    (hfades : s.tuning.fade ≠ 0 →
      |0 - s.weight| ≤ (elapsed.toNat : ℝ) / s.tuning.fade.toNat) :
  (@Stabilizer.step ℝ realScalar s trusted input elapsed).2.Kept ∧
    s.Bounded input elapsed (@Stabilizer.step ℝ realScalar s trusted input elapsed).1
      (@Stabilizer.step ℝ realScalar s trusted input elapsed).2
  := by
  rw [step_faded hw, h.gains]
  constructor
  · exact ⟨le_rfl, zero_le_one, rfl, h.correction_nonneg, h.pitch_nonneg, fun _ => rfl⟩
  · refine ⟨le_rfl, zero_le_one, hfades, ?_, ?_, fun _ => rfl, fun _ => ⟨rfl, rfl⟩⟩
    · rw [sub_self, abs_zero, zero_mul]
    · rw [sub_self, abs_zero, zero_mul]

/-- A step with any other weight is bounded as long as the command is a pair of
positions. -/
theorem Kept.step_of_pos (h : s.Kept) {trusted : Bool} {input : Input ℝ} {elapsed : Millis}
    {w : ℝ} (hw : @fadedWeight ℝ realScalar s (s.tuning.enabled && trusted) elapsed = w)
    (h0 : 0 < w) (h1 : w ≤ 1)
    (hfades : s.tuning.fade ≠ 0 →
      |w - s.weight| ≤ (elapsed.toNat : ℝ) / s.tuning.fade.toNat) :
  (@Stabilizer.step ℝ realScalar s trusted input elapsed).2.Kept ∧
    (|input.throttle| ≤ 1 → |input.steering| ≤ 1 →
      s.Bounded input elapsed (@Stabilizer.step ℝ realScalar s trusted input elapsed).1
        (@Stabilizer.step ℝ realScalar s trusted input elapsed).2)
  := by
  obtain ⟨x, y, pid, hx, hy, hgains, hstep⟩ := step_weighed hw h0
  rw [h.gains] at hy hgains
  rw [hstep]
  constructor
  · exact ⟨h0.le, h1, hgains, h.correction_nonneg, h.pitch_nonneg,
      fun hz => absurd hz h0.ne'⟩
  · intro hthrottle hsteering
    refine ⟨h0.le, h1, hfades, abs_corrected_sub_le hsteering h0.le h.correction_nonneg hy,
      ?_, ?_, fun hz => absurd hz h0.ne'⟩
    · dsimp only
      split
      · exact abs_corrected_sub_le hthrottle h0.le h.pitch_nonneg hx
      · rw [clampUnit_real, max_min_of_abs_le hthrottle, sub_self, abs_zero]
        exact mul_nonneg h0.le h.pitch_nonneg
    · intro hp
      dsimp only
      rw [if_neg hp, clampUnit_real, max_min_of_abs_le hthrottle]

/-- A step is bounded, and what holds at all times still does. -/
theorem Kept.step (h : s.Kept) (trusted : Bool) {input : Input ℝ} (elapsed : Millis) :
  (@Stabilizer.step ℝ realScalar s trusted input elapsed).2.Kept ∧
    (|input.throttle| ≤ 1 → |input.steering| ≤ 1 →
      s.Bounded input elapsed (@Stabilizer.step ℝ realScalar s trusted input elapsed).1
        (@Stabilizer.step ℝ realScalar s trusted input elapsed).2)
  := by
  obtain ⟨hw0, hw1, hfade⟩ := fadedWeight_bounds h.weight_nonneg h.weight_le
    (s.tuning.enabled && trusted) elapsed
  generalize hw : @fadedWeight ℝ realScalar s (s.tuning.enabled && trusted) elapsed = w
    at hw0 hw1 hfade
  have hfades (hf : s.tuning.fade ≠ 0) :
      |w - s.weight| ≤ (elapsed.toNat : ℝ) / s.tuning.fade.toNat := by
    rwa [fadeStep_real, if_neg hf] at hfade
  obtain rfl | hpos := hw0.eq_or_lt
  · obtain ⟨hkept, hbounded⟩ := h.step_of_zero hw hfades
    exact ⟨hkept, fun _ _ => hbounded⟩
  · exact h.step_of_pos hw hpos hw1 hfades

/-- Whatever has been asked for and whatever the sensor has said, the stabilizer is kept. -/
theorem kept_of_reachable (h : @IsReachable ℝ realScalar s) :
  s.Kept
  := by
  induction h with
  | start => exact kept_start
  | ask _ t ih => exact ih.ask t
  | step _ trusted input elapsed ih => exact (ih.step trusted elapsed).1

end Stabilizer

end ModelCar
