import ModelCar.Proofs.Control.Storage
import ModelCar.Proofs.Drive.Slew

/-!
# What is given to the actuators

As long as the speeds are not below zero, the outputs are positions in every state that
can be reached, whatever commands, samples and requests there have been and whatever the
clock has shown: the target of a turn is a pair of positions by its type, the failsafe
brings the outputs to rest, and following a target does not leave the range.
-/

namespace ModelCar

namespace Effect

/-- The values that an effect gives to the actuators. -/
def outputs? : Effect → Option (Float32 × Float32)
  | .drive throttle steering => some (throttle, steering)
  | _ => none

theorem mem_of_outputs {effects : List Effect} {throttle steering : Float32}
    (h : (throttle, steering) ∈ effects.filterMap outputs?) :
  .drive throttle steering ∈ effects
  := by
  obtain ⟨e, he, ho⟩ := List.mem_filterMap.mp h
  cases e with
  | drive x y =>
      cases ho
      exact he
  | _ => cases ho

end Effect

namespace Control

variable {c : Control} {s : Surroundings}

/-- The outputs are positions, as far as the speeds are not below zero. -/
def Confined (c : Control) : Prop :=
  c.actuators.Confined c.settings.throttleSpeed c.settings.steeringSpeed

/-- Only the speeds and the outputs matter. -/
theorem Confined.congr (h : c.Confined) {c' : Control} (hs : c'.settings = c.settings)
    (ht : c'.actuators.throttle = c.actuators.throttle)
    (hst : c'.actuators.steering = c.actuators.steering) :
  c'.Confined
  := by
  obtain ⟨hct, hcs⟩ := h
  constructor
  · rw [hs, ht]
    exact hct
  · rw [hs, hst]
    exact hcs

theorem confined_ofSettings (t : Settings) :
  (ofSettings t).Confined
  := Actuators.AtRest.confined ⟨rfl, rfl⟩

/-! ### A turn -/

/-- Up to the failsafe a turn does not touch the actuators. -/
theorem stabilized_frame (c : Control) (s : Surroundings) :
  (c.stabilized s).settings = c.settings ∧ (c.stabilized s).actuators = c.actuators
  := by
  show (c.noted s).settings = _ ∧ (c.noted s).actuators = _
  rw [noted_eq]
  exact ⟨rfl, rfl⟩

/-- The failsafe leaves the outputs as they are or brings them to rest. -/
theorem Confined.guarded (h : c.Confined) (s : Surroundings) :
  (c.guarded s).Confined
  := by
  obtain ⟨hs, ha⟩ := stabilized_frame c s
  unfold Control.guarded
  by_cases hf : ((c.stabilized s).failsafe.update s.now (c.stabilized s).radio.isActive
      (c.stabilized s).wireless.isActive).isActive
  · rw [guard_of_active _ _ hf]
    apply Actuators.AtRest.confined
    apply Actuators.atRest_stopped
  · rw [guard_of_not_active _ _ hf]
    apply h.congr hs
    · rw [ha]
    · rw [ha]

theorem Confined.driven (h : c.Confined) (s : Surroundings) :
  (c.driven s).Confined
  := by
  have hg := h.guarded s
  unfold Control.driven drive
  split
  · exact hg
  · exact (hg.follow ‹_›).1

theorem Confined.turn (h : c.Confined) (s : Surroundings) :
  (c.turn s).1.Confined
  := by
  have ha : (c.turn s).1.actuators = (c.driven s).actuators := by rw [turn_frame]
  have hs : (c.turn s).1.settings = (c.driven s).settings := by
    rw [turn_settings, Control.driven, drive_eq, Control.guarded, guard_eq]
    exact (stabilized_frame c s).1.symm
  apply (h.driven s).congr hs
  · rw [ha]
  · rw [ha]

/-- The actuators are given new values in a turn when they follow its goal. -/
theorem follow_of_mem_turn {throttle steering : Float32}
    (h : .drive throttle steering ∈ (c.turn s).2) :
  ∃ b, b.throttle = throttle ∧ b.steering = steering ∧
    (c.guarded s).actuators.follow s.now (c.goal s) (c.guarded s).settings.throttleSpeed
      (c.guarded s).settings.steeringSpeed = some b
  := by
  have hm : (Effect.drive throttle steering).Moves := trivial
  obtain h | h := (mem_turn_of_moves c s hm).mp h
  · obtain ⟨n, h⟩ | ⟨active, h⟩ | h := mem_guard _ h
    · cases h
    · cases h
    · cases h
  · unfold drive at h
    split at h
    · cases h
    · rename_i b hb
      cases List.mem_singleton.mp h
      exact ⟨b, rfl, rfl, hb⟩

end Control

/-! ### A run -/

namespace Car

variable {car : Car}

/-- Every operation keeps the outputs in their range. -/
theorem confined_next (op : Operation) (h : car.control.Confined) :
  (car.next op).control.Confined
  := by
  have hr {c' : Control} {d : Delivery} {effects : List Effect}
      (hr : Control.Response car.control d c' effects) : c'.Confined := by
    rw [hr.eq_withMotion]
    exact h
  cases op with
  | renew t => exact Control.confined_ofSettings t
  | start s =>
      show (car.control.start { s with calibration := car.stored }).2.1.Confined
      obtain ⟨-, hl⟩ | ⟨hc, -⟩ := Control.start_cases car.control
        { s with calibration := car.stored }
      · rw [hl, Control.launch_frame]
        exact h.congr rfl rfl rfl
      · rw [hc]
        exact h
  | turn s => exact h.turn s
  | calibrateForward => exact hr (Control.calibrateForward_response _ 0 none)
  | setForward v fault => exact hr (Control.setForward_response _ v 0 fault)
  | retune t keep fault => exact hr (Control.retune_response _ t keep 0 fault)

/-- Nothing but a turn gives new values to the actuators. -/
theorem turn_of_drive {op : Operation} {throttle steering : Float32}
    (h : .drive throttle steering ∈ (car.perform op).2) :
  ∃ s, op = .turn s
  := by
  cases op with
  | renew t => cases h
  | start s =>
      obtain ⟨-, hl⟩ | ⟨-, hp⟩ := Control.start_cases car.control
        { s with calibration := car.stored }
      · rw [perform, hl] at h
        obtain h | h := Control.mem_launch _ _ h
        · cases h
        · cases h.1 trivial
      · cases (hp _ h).1 trivial
  | turn s => exact ⟨s, rfl⟩
  | calibrateForward =>
      cases (Control.calibrateForward_response _ 0 none).still _ h trivial
  | setForward v fault => cases (Control.setForward_response _ v 0 fault).still _ h trivial
  | retune t keep fault =>
      cases (Control.retune_response _ t keep 0 fault).still _ h trivial

/-- In every state that can be reached, at speeds that are not below zero: when the
actuators are given new values, then in a turn, both values are positions, and each lies
between the output that the failsafe has left and the goal of the turn. -/
theorem drive_between_goal (hcar : car.IsReachable)
    (ht : ¬ car.control.settings.throttleSpeed < 0.0)
    (hs : ¬ car.control.settings.steeringSpeed < 0.0) {op : Operation}
    {throttle steering : Float32} (h : .drive throttle steering ∈ (car.perform op).2) :
  InUnit throttle ∧ InUnit steering ∧
    ∃ s, op = .turn s ∧
      Between (car.control.guarded s).actuators.throttle (car.control.goal s).throttle
        throttle ∧
      Between (car.control.guarded s).actuators.steering (car.control.goal s).steering
        steering
  := by
  have hc : car.control.Confined :=
    hcar.of_next (P := fun car => car.control.Confined)
      (fun t _ => Control.confined_ofSettings t) fun _ op => confined_next op
  obtain ⟨s, rfl⟩ := turn_of_drive h
  obtain ⟨b, rfl, rfl, hb⟩ := Control.follow_of_mem_turn h
  have hg : (car.control.guarded s).settings = car.control.settings := by
    rw [Control.guarded, Control.guard_eq]
    exact (Control.stabilized_frame car.control s).1
  obtain ⟨hconfined, hthrottle, hsteering⟩ := (hc.guarded s).follow hb
  rw [hg] at hconfined hthrottle hsteering
  exact ⟨hconfined.throttle ht, hconfined.steering hs, s, rfl, hthrottle ht, hsteering hs⟩

/-- A turn that hears a command of full throttle to the left. -/
def fullLeft (time : Nat) : Operation :=
  .turn (Moment.plain time (some (.clamped 1.0 (-1.0)))).toSurroundings

/-- Twenty milliseconds after the start, the outputs are on their way to full throttle and
to the left. -/
theorem drive_fullLeft :
  .drive 0.01 (-0.02) ∈ (((⟨.ofSettings {}, none⟩ : Car).after
      [.start .plain, fullLeft 1000]).perform (fullLeft 1020)).2 ∧
    InUnit 0.01 ∧ InUnit (-0.02)
  := by
  have h : .drive 0.01 (-0.02) ∈ (((⟨.ofSettings {}, none⟩ : Car).after
      [.start .plain, fullLeft 1000]).perform (fullLeft 1020)).2 := by
    have ho : (((⟨.ofSettings {}, none⟩ : Car).after
        [.start .plain, fullLeft 1000]).perform (fullLeft 1020)).2.filterMap Effect.outputs?
        = [(0.01, -0.02)] := by decide +kernel
    apply Effect.mem_of_outputs
    rw [ho]
    apply List.mem_singleton_self
  have hcar : ((⟨.ofSettings {}, none⟩ : Car).after
      [.start .plain, fullLeft 1000]).IsReachable := ⟨{}, none, _, rfl⟩
  obtain ⟨ht, hs, -⟩ := drive_between_goal hcar (by decide +kernel) (by decide +kernel) h
  exact ⟨h, ht, hs⟩

end Car

end ModelCar
