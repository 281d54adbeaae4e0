import ModelCar.Proofs.Control.Stabilization
import ModelCar.Proofs.Control.Storage
import ModelCar.Proofs.Drive.Controls
import ModelCar.Proofs.Stabilization.Authority

/-!
# The authority of the stabilization over the car

The stabilizer of every car that can be reached has taken a course of requested tunings
and steps, and the target of a turn is what its next step makes of the command.  Along
every such course the stabilizer is bounded in exact arithmetic.
-/

namespace ModelCar

/-- A step turns positions into positions. -/
theorem Stabilizer.inUnit_step (s : Stabilizer Float32) (trusted : Bool)
    (input : Input Float32) (elapsed : Millis) (ht : InUnit input.throttle)
    (hs : InUnit input.steering) :
  InUnit (s.step trusted input elapsed).1.1 ∧ InUnit (s.step trusted input elapsed).1.2
  := by
  simp only [step]
  split
  · exact ⟨ht, hs⟩
  · exact ⟨inUnit_clampUnit _, inUnit_clampUnit _⟩

/-- The target of a turn is the result of the stabilizer as it is. -/
theorem Control.target_stabilized (c : Control) (s : Surroundings) :
  (c.target s).throttle = (c.stabilizerTurn s).1.1 ∧
    (c.target s).steering = (c.stabilizerTurn s).1.2
  := by
  obtain ⟨ht, hs⟩ : InUnit (c.stabilizerTurn s).1.1 ∧ InUnit (c.stabilizerTurn s).1.2 :=
    Stabilizer.inUnit_step _ _ (c.noted s).choose.input _
      (c.noted s).choose.commanded.throttle_mem (c.noted s).choose.commanded.steering_mem
  rw [target_eq]
  exact ⟨ht.clampUnit_eq, hs.clampUnit_eq⟩

namespace Car

variable {car : Car}

/-- Every operation continues the course of the stabilizer, or begins it anew. -/
theorem stabilizer_next (op : Operation) (h : car.control.stabilizer.IsReachable) :
  (car.next op).control.stabilizer.IsReachable
  := by
  cases op with
  | renew t => exact .start
  | start s =>
      show (car.control.start { s with calibration := car.stored }).2.1.stabilizer.IsReachable
      obtain ⟨-, hl⟩ | ⟨hc, -⟩ := Control.start_cases car.control
        { s with calibration := car.stored }
      · obtain ⟨t, ht⟩ := Control.exists_ask_startTuning s.tuning
        rw [hl, Control.launch_stabilizer, ht]
        exact h.ask t
      · rw [hc]
        exact h
  | turn s =>
      show (car.control.turn s).1.stabilizer.IsReachable
      rw [Control.turn_stabilizer]
      exact h.turn ..
  | calibrateForward =>
      show car.control.calibrateForward.2.1.stabilizer.IsReachable
      rw [(Control.calibrateForward_response car.control 0 none).stabilizer rfl]
      exact h
  | setForward v fault => exact h
  | retune t keep fault =>
      show (car.control.retune t keep fault).2.1.stabilizer.IsReachable
      rw [Control.retune_stabilizer]
      exact h.ask t

/-- The authority of the stabilization is bounded.  In exact arithmetic, whatever tunings
have been asked for and whatever the sensor has said: the weight lies between zero and
one, and the controller is at its start while it is zero; and in a turn the weight fades
no faster than the tuning says, and the target is no farther from the command than the
weighed bounds.  The stabilizer of the car takes such a course, and the target of its turn
is the result of a turn of the stabilizer. -/
theorem authority_bounded :
  (∀ s : Stabilizer ℝ, @Stabilizer.IsReachable ℝ realScalar s → s.Kept ∧
    ∀ (asked : List (Tuning ℝ)) (trusted : Bool) (input : Stabilizer.Input ℝ)
      (elapsed : Millis), |input.throttle| ≤ 1 → |input.steering| ≤ 1 →
        s.Bounded input elapsed
          (@Stabilizer.turn ℝ realScalar s asked trusted input elapsed).1
          (@Stabilizer.turn ℝ realScalar s asked trusted input elapsed).2) ∧
  ∀ car : Car, car.IsReachable → car.control.stabilizer.IsReachable ∧
    ∀ s : Surroundings,
      (car.control.target s).throttle = (car.control.stabilizerTurn s).1.1 ∧
      (car.control.target s).steering = (car.control.stabilizerTurn s).1.2 ∧
      (car.control.turn s).1.stabilizer = (car.control.stabilizerTurn s).2
  := by
  constructor
  · intro s hs
    have hk := Stabilizer.kept_of_reachable hs
    use hk
    intro asked trusted input elapsed ht hst
    obtain ⟨h0, h1, hf, hsteering, hthrottle, hlevel, hoff⟩ :=
      ((hk.askAll asked).step trusted elapsed).2 ht hst
    rw [@Stabilizer.askAll_weight ℝ realScalar] at hf
    exact ⟨h0, h1, hf, hsteering, hthrottle, hlevel, hoff⟩
  · intro car hcar
    constructor
    · exact hcar.of_next (P := fun car => car.control.stabilizer.IsReachable)
        (fun _ _ => .start) fun _ op => stabilizer_next op
    · intro s
      obtain ⟨ht, hst⟩ := car.control.target_stabilized s
      exact ⟨ht, hst, car.control.turn_stabilizer s⟩

/-- The standard tuning with the stabilization switched on, in exact arithmetic. -/
noncomputable def assisting : Tuning ℝ :=
  { @Tuning.standard ℝ realScalar with enabled := true }

/-- The new stabilizer takes this tuning. -/
theorem ask_assisting :
  @Stabilizer.ask ℝ realScalar (@Stabilizer.start ℝ realScalar) assisting
    = (@Stabilizer.start ℝ realScalar).retune assisting
  := by
  have hc : @Tuning.clamped ℝ realScalar assisting = assisting := by
    unfold Tuning.clamped
    congr 1
    all_goals first
      | rfl
      | apply within_real <;>
          norm_num [assisting, Tuning.standard, Tuning.largest]
  unfold Stabilizer.ask
  rw [hc, if_pos]
  refine ⟨rfl, ?_⟩
  norm_num [assisting, Tuning.standard]

/-- A turn at which the stabilization has been switched on for half the time of its
fading. -/
noncomputable def halfway : (ℝ × ℝ) × Stabilizer ℝ :=
  @Stabilizer.turn ℝ realScalar (@Stabilizer.start ℝ realScalar) [assisting] true
    ⟨0, 1, 0, 0⟩ 250

theorem halfway_weight :
  halfway.2.weight = 1 / 2
  := by
  show (@Stabilizer.step ℝ realScalar (@Stabilizer.ask ℝ realScalar
    (@Stabilizer.start ℝ realScalar) assisting) true ⟨0, 1, 0, 0⟩ 250).2.weight = _
  have hfade : ¬ ((@Stabilizer.start ℝ realScalar).retune assisting).tuning.fade = 0 := by
    show ¬ (500 : Millis) = 0
    decide
  have hon : (((@Stabilizer.start ℝ realScalar).retune assisting).tuning.enabled && true)
      = true := rfl
  rw [@Stabilizer.step_weight ℝ realScalar, ask_assisting, Stabilizer.fadedWeight_real,
    if_pos hon, Stabilizer.fadeStep_real, if_neg hfade]
  show min 1 ((0.0 : ℝ) + ((250 : Nat) : ℝ) / (500 : Nat)) = 1 / 2
  norm_num

/-- Then full steering is corrected by no more than half of the largest correction, and the
throttle not at all. -/
theorem authority_halfway :
  |halfway.1.2 - 1| ≤ 1 / 2 * 0.3 ∧ halfway.1.1 = 0 ∧
    (⟨.ofSettings {}, none⟩ : Car).control.stabilizer.IsReachable
  := by
  have hb : (@Stabilizer.start ℝ realScalar).Bounded ⟨0, 1, 0, 0⟩ 250 halfway.1 halfway.2 :=
    (authority_bounded.1 _ (@Stabilizer.IsReachable.start ℝ realScalar)).2 _ _ _ _
      (by norm_num) (by norm_num)
  have ht : halfway.2.tuning = assisting := by
    show (@Stabilizer.step ℝ realScalar (@Stabilizer.ask ℝ realScalar
      (@Stabilizer.start ℝ realScalar) assisting) true ⟨0, 1, 0, 0⟩ 250).2.tuning = _
    rw [(@Stabilizer.step_frame ℝ realScalar _ _ _ _).1, ask_assisting]
    rfl
  have hs := hb.steering
  rw [halfway_weight, ht] at hs
  have hp : ¬ halfway.2.tuning.pitchEnabled := by
    rw [ht]
    decide
  exact ⟨hs, hb.level hp, (authority_bounded.2 _ ⟨{}, none, [], rfl⟩).1⟩

end Car

end ModelCar
