import ModelCar.Proofs.Drive.Actuators
import ModelCar.Proofs.Drive.Controls

/-!
# The way to the target

An output moves from its present value towards the target and never past it.  If the
range of the motion is below the rounded distance, then it is not above the distance
itself, because rounding passes no number; so the exact step ends between the two, and
rounding leaves it there.  Otherwise the output is the target, also when the range is
not finite or not a number.
-/

namespace ModelCar

open Float.Model

/-- A number lies between two others, whichever of them is the larger one. -/
def Between (a b x : Float32) : Prop :=
  a ≤ x ∧ x ≤ b ∨ b ≤ x ∧ x ≤ a

variable {current target range speed : Float32}

/-! ### One step -/

/-- An exact step that ends between two positions ends there when it is rounded, too. -/
theorem between_of_rounds (hc : InUnit current) (ht : InUnit target) {x : Float32} {r : ℝ}
    (hr : r ∈ Set.uIcc (single current) (single target))
    (hx : |r| ≤ maxValue .binary32 → Rounds .binary32 r x.toModel.unpack) :
  InUnit x ∧ Between current target x
  := by
  obtain ⟨hcf, hc⟩ := inUnit_iff.mp hc
  obtain ⟨htf, ht⟩ := inUnit_iff.mp ht
  have hunit {v : ℝ} (hv : v ∈ Set.uIcc (single current) (single target)) : |v| ≤ 1 :=
    abs_le.mpr (Set.uIcc_subset_Icc (abs_le.mp hc) (abs_le.mp ht) hv)
  have hrounds := hx (le_maxValue_single ((hunit hr).trans (by norm_num)))
  have hxf : x.isFinite := hrounds.isFinite
  have hmem : single x ∈ Set.uIcc (single current) (single target) :=
    hrounds.mem_uIcc (representable_value (canonical_single target))
      (representable_value (canonical_single current)) hr
  constructor
  · rw [inUnit_iff]
    use hxf
    apply hunit hmem
  · rw [Between, single_le_iff hcf hxf, single_le_iff hxf htf, single_le_iff htf hxf,
      single_le_iff hxf hcf]
    exact Set.mem_uIcc.mp hmem

/-- The distance of two positions is rounded to a finite number. -/
theorem rounds_distance (hc : InUnit current) (ht : InUnit target) :
  Rounds .binary32 (single target - single current) (target - current).toModel.unpack
  := by
  obtain ⟨hcf, hc⟩ := inUnit_iff.mp hc
  obtain ⟨htf, ht⟩ := inUnit_iff.mp ht
  apply rounds_single_sub htf hcf
  apply le_maxValue_single
  have := abs_sub (single target) (single current)
  linarith

/-- A step upwards does not pass the target, if it is shorter than the rounded distance. -/
theorem between_add (hc : InUnit current) (ht : InUnit target) (hr : ¬ range < 0.0)
    (h : range < target - current) :
  InUnit (current + range) ∧ Between current target (current + range)
  := by
  have hd := rounds_distance hc ht
  have hrf : range.isFinite := isFinite_of_lt hd.isFinite hr h
  rw [single_lt_iff hrf rfl, single_zero, not_lt] at hr
  rw [single_lt_iff hrf hd.isFinite] at h
  have hle : single range ≤ single target - single current :=
    hd.le_of_lt (representable_value (canonical_single range)) h
  apply between_of_rounds hc ht _ (rounds_single_add (inUnit_iff.mp hc).1 hrf)
  rw [Set.mem_uIcc]
  left
  constructor <;> linarith

/-- Nor does a step downwards. -/
theorem between_sub (hc : InUnit current) (ht : InUnit target) (hr : ¬ range < 0.0)
    (h : target - current < -range) :
  InUnit (current - range) ∧ Between current target (current - range)
  := by
  have hd := rounds_distance hc ht
  have hnf : (-range).isFinite := isFinite_of_gt hd.isFinite (not_zero_lt_neg hr) h
  have hrf : range.isFinite := by
    rw [← isFinite_single_neg]
    exact hnf
  rw [single_lt_iff hrf rfl, single_zero, not_lt] at hr
  rw [single_lt_iff hd.isFinite hnf] at h
  have hge : single target - single current ≤ single (-range) :=
    hd.ge_of_gt (representable_value (canonical_single (-range))) h
  rw [(single_neg hrf).2] at hge
  apply between_of_rounds hc ht _ (rounds_single_sub (inUnit_iff.mp hc).1 hrf)
  rw [Set.mem_uIcc]
  right
  constructor <;> linarith

/-- The target lies between itself and the present value. -/
theorem between_target (hc : InUnit current) (ht : InUnit target) :
  Between current target target
  := by
  obtain ⟨hcf, -⟩ := inUnit_iff.mp hc
  obtain ⟨htf, -⟩ := inUnit_iff.mp ht
  rw [Between, single_le_iff hcf htf, single_le_iff htf htf, single_le_iff htf hcf]
  exact (le_total (single current) (single target)).imp (fun h => ⟨h, le_rfl⟩)
    (fun h => ⟨le_rfl, h⟩)

/-- At a speed that is not below zero, whatever time has passed, the output stays in the
range of positions, and it lies between its present value and the target. -/
theorem slew_between (hs : ¬ speed < 0.0) (hc : InUnit current) (ht : InUnit target)
    (elapsed : Millis) :
  InUnit (slew target current speed elapsed) ∧
    Between current target (slew target current speed elapsed)
  := by
  have hr := not_slewRange_lt_zero hs elapsed
  unfold slew
  dsimp only
  split
  · apply between_add hc ht hr
    assumption
  · split
    · apply between_sub hc ht hr
      assumption
    · exact ⟨ht, between_target hc ht⟩

/-! ### Both outputs -/

namespace Actuators

/-- The outputs are positions, as far as their speeds are not below zero. -/
structure Confined (a : Actuators) (throttleSpeed steeringSpeed : Float32) : Prop where
  throttle : ¬ throttleSpeed < 0.0 → InUnit a.throttle
  steering : ¬ steeringSpeed < 0.0 → InUnit a.steering

variable {a b : Actuators} {throttleSpeed steeringSpeed : Float32}

/-- Outputs at rest are positions. -/
theorem AtRest.confined (h : a.AtRest) :
  a.Confined throttleSpeed steeringSpeed
  := by
  obtain ⟨ht, hs⟩ := h
  constructor
  · intro _
    rw [ht]
    apply inUnit_zero
  · intro _
    rw [hs]
    apply inUnit_zero

/-- When the actuators follow a target, they stay in their range, and each output moves
towards the target without passing it. -/
theorem Confined.follow (h : a.Confined throttleSpeed steeringSpeed) {now : Millis}
    {target : Controls} (hb : a.follow now target throttleSpeed steeringSpeed = some b) :
  b.Confined throttleSpeed steeringSpeed ∧
    (¬ throttleSpeed < 0.0 → Between a.throttle target.throttle b.throttle) ∧
    (¬ steeringSpeed < 0.0 → Between a.steering target.steering b.steering)
  := by
  obtain ⟨elapsed, -, rfl⟩ := Option.map_eq_some_iff.mp hb
  have ht (hn : ¬ throttleSpeed < 0.0) :=
    slew_between hn (h.throttle hn) target.throttle_mem elapsed
  have hs (hn : ¬ steeringSpeed < 0.0) :=
    slew_between hn (h.steering hn) target.steering_mem elapsed
  exact ⟨⟨fun hn => (ht hn).1, fun hn => (hs hn).1⟩, fun hn => (ht hn).2,
    fun hn => (hs hn).2⟩

end Actuators

end ModelCar
