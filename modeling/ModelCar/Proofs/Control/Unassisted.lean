import ModelCar.Proofs.Control.Conduct
import ModelCar.Proofs.Stabilization.Idle

/-!
# Driving without the motion sensor

Samples, the calibration and the end of it change the inertial unit, which a turn looks at
only to stabilize the target.  A stabilizer that is not in use leaves the command as it is,
whatever it is told.  So as long as the stabilization is never switched on, the motion
sensor does not change the conduct of the car, and it does not matter whether there is
one.
-/

namespace ModelCar

/-! ### What differs -/

/-- The same surroundings with another sample, other faults of the store, and another
audience. -/
structure Surroundings.SameButSensor (s s' : Surroundings) : Prop where
  now : s'.now = s.now
  radio : s'.radio = s.radio
  wireless : s'.wireless = s.wireless
  requests : s'.requests.map (fun d => d.request) = s.requests.map fun d => d.request

/-- The same start with another motion sensor, or without one, and with another stored
calibration. -/
structure Startup.SameButSensor (u u' : Startup) : Prop where
  now : u'.now = u.now
  outputFault : u'.outputFault = u.outputFault
  failsafeFault : u'.failsafeFault = u.failsafeFault
  radioFault : u'.radioFault = u.radioFault
  tuning : u'.tuning = u.tuning

/-- The same operation with another motion sensor and other faults of the store. -/
inductive Operation.SameButSensor : Operation → Operation → Prop where
  | renew (t : Settings) : SameButSensor (.renew t) (.renew t)
  | start {u u' : Startup} (h : u.SameButSensor u') : SameButSensor (.start u) (.start u')
  | turn {s s' : Surroundings} (h : s.SameButSensor s') : SameButSensor (.turn s) (.turn s')
  | calibrateForward : SameButSensor .calibrateForward .calibrateForward
  | setForward (v : Vector3 Float32) (fault fault' : Option Fault) :
      SameButSensor (.setForward v fault) (.setForward v fault')
  | retune (t : Tuning Float32) (keep : Bool) (fault fault' : Option Fault) :
      SameButSensor (.retune t keep fault) (.retune t keep fault')

theorem askedTunings_eq (requests : List Delivery) :
  askedTunings requests = (requests.map fun d => d.request).filterMap Request.tuning?
  := by
  rw [List.filterMap_map]
  rfl

theorem Surroundings.SameButSensor.askedTunings {s s' : Surroundings}
    (h : s.SameButSensor s') :
  ModelCar.askedTunings s'.requests = ModelCar.askedTunings s.requests
  := by rw [askedTunings_eq, askedTunings_eq, h.requests]

namespace Control

/-- Control loops with different motion sensors, whose stabilizer is not in use. -/
structure SameButSensor (c c' : Control) : Prop extends Agrees c c' where
  wireless : c'.wireless = c.wireless
  idle : c.stabilizer.Idle

theorem sameButSensor_ofSettings (t : Settings) :
  (ofSettings t).SameButSensor (ofSettings t)
  := { agrees_refl _ with wireless := rfl, idle := Stabilizer.idle_start }

variable {c c' : Control} {s s' : Surroundings}

/-! ### Requests and starts -/

theorem SameButSensor.respond (h : c.SameButSensor c') {d d' : Delivery} {e e' : Control}
    {effects effects' : List Effect} (hr : Response c d e effects)
    (hr' : Response c' d' e' effects') (hs : e'.stabilizer = e.stabilizer)
    (hi : e.stabilizer.Idle) :
  e.SameButSensor e' ∧ Conduct.of (e', effects') = Conduct.of (e, effects)
  := by
  obtain ⟨hagrees, hmotions⟩ := h.toAgrees.respond hr hr' hs
  refine ⟨{ hagrees with wireless := ?_, idle := hi }, hagrees.conduct hmotions⟩
  rw [hr.eq_withMotion, hr'.eq_withMotion]
  exact h.wireless

theorem start_wireless (c : Control) (u : Startup) :
  (c.start u).2.1.wireless = c.wireless
  := by
  obtain ⟨-, h⟩ | ⟨h, -⟩ := start_cases c u
  · rw [h, launch_frame]
  · rw [h]

theorem idle_start (h : c.stabilizer.Idle) (u : Startup) :
  (c.start u).2.1.stabilizer.Idle
  := by
  obtain ⟨-, hl⟩ | ⟨hl, -⟩ := start_cases c u
  · obtain ⟨t, ht⟩ := exists_ask_startTuning u.tuning
    rw [hl, launch_stabilizer, ht]
    apply h.ask t
  · rw [hl]
    exact h

theorem SameButSensor.start (h : c.SameButSensor c') {u u' : Startup}
    (hu : u.SameButSensor u') :
  (c.start u).2.1.SameButSensor (c'.start u').2.1 ∧
    Conduct.of (c'.start u').2 = Conduct.of (c.start u).2
  := by
  obtain ⟨hagrees, hmotions⟩ := h.toAgrees.start u u' hu.now hu.outputFault
    hu.failsafeFault hu.radioFault hu.tuning
  refine ⟨{ hagrees with wireless := ?_, idle := idle_start h.idle u },
    hagrees.conduct hmotions⟩
  rw [start_wireless, start_wireless, h.wireless]

/-! ### Turns -/

theorem noted_wireless (c : Control) (s : Surroundings) :
  (c.noted s).wireless = c.wireless.update s.now s.wireless
  := by rw [noted_eq]

theorem turn_tuning (c : Control) (s : Surroundings) :
  (c.turn s).1.tuning = (c.stabilizer.askAll (askedTunings s.requests)).tuning
  := by
  rw [tuning, turn_stabilizer, stabilizerTurn, Stabilizer.turn, (Stabilizer.step_frame ..).1]

/-- Turns that differ in the motion sensor decide alike, and leave the stabilizer out of
use, as long as the stabilization is not switched on. -/
theorem SameButSensor.decideAlike (h : c.SameButSensor c') (hs : s.SameButSensor s')
    (he : ¬ (c.turn s).1.tuning.enabled) :
  DecideAlike c c' s s' ∧ (c.stabilizerTurn s).2.Idle
  := by
  have hagrees := h.toAgrees.noted hs.now hs.radio hs.askedTunings
  have hwireless : (c'.noted s').wireless = (c.noted s).wireless := by
    rw [noted_wireless, noted_wireless, h.wireless, hs.now, hs.wireless]
  have hchoice : (c'.noted s').choice = (c.noted s).choice := by
    rw [choice, choice, hagrees.radio, hwireless, hagrees.commanded]
  rw [turn_tuning] at he
  obtain ⟨hturn, hidle⟩ :=
    h.idle.turn he (c.noted s).trusts (c.noted s).choose.input (c.elapsed s.now)
  obtain ⟨hturn', -⟩ :=
    h.idle.turn he (c'.noted s').trusts (c'.noted s').choose.input (c'.elapsed s'.now)
  have hinput : (c'.noted s').choose.commanded = (c.noted s).choose.commanded := hchoice
  refine ⟨⟨hs.now, hagrees, hchoice, ?_, ?_⟩, hidle⟩
  · rw [hasSource, hasSource, hagrees.radio, hwireless]
  · rw [stabilizerTurn, stabilizerTurn, h.stabilizer, hs.askedTunings, hturn, hturn', input,
      input, hinput]

theorem SameButSensor.turn (h : c.SameButSensor c') (hs : s.SameButSensor s')
    (he : ¬ (c.turn s).1.tuning.enabled) :
  (c.turn s).1.SameButSensor (c'.turn s').1 ∧
    Conduct.of (c'.turn s') = Conduct.of (c.turn s)
  := by
  obtain ⟨hdecide, hidle⟩ := h.decideAlike hs he
  obtain ⟨hagrees, hmotions⟩ := hdecide.turn
  refine ⟨{ hagrees with wireless := ?_, idle := ?_ }, hagrees.conduct hmotions⟩
  · rw [turn_wireless, turn_wireless, h.wireless, hs.now, hs.wireless]
  · rw [turn_stabilizer]
    exact hidle

end Control

/-! ### Runs -/

namespace Car

variable {car car' : Car}

/-- Cars that differ in the motion sensor are led alike by operations that differ in it, as
long as the stabilization is not switched on. -/
theorem sameButSensor_step {op op' : Operation}
    (h : car.control.SameButSensor car'.control) (hop : op.SameButSensor op')
    (he : op.OnTurn (¬ (car.next op).control.tuning.enabled)) :
  Conduct.of (car'.perform op') = Conduct.of (car.perform op) ∧
    (car.next op).control.SameButSensor (car'.next op').control
  := by
  rw [and_comm]
  cases hop with
  | renew t => exact ⟨Control.sameButSensor_ofSettings t, rfl⟩
  | start hu =>
      apply h.start
      exact { hu with }
  | turn hs => exact h.turn hs he
  | calibrateForward =>
      have hr := Control.calibrateForward_response car.control 0 none
      have hr' := Control.calibrateForward_response car'.control 0 none
      apply h.respond hr hr'
      · rw [hr.stabilizer rfl, hr'.stabilizer rfl, h.stabilizer]
      · rw [hr.stabilizer rfl]
        exact h.idle
  | setForward v fault fault' =>
      apply h.respond (Control.setForward_response car.control v 0 fault)
        (Control.setForward_response car'.control v 0 fault')
      · exact h.stabilizer
      · exact h.idle
  | retune t keep fault fault' =>
      apply h.respond (Control.retune_response car.control t keep 0 fault)
        (Control.retune_response car'.control t keep 0 fault')
      · rw [Control.retune_stabilizer, Control.retune_stabilizer, h.stabilizer]
      · rw [Control.retune_stabilizer]
        apply h.idle.ask

/-- As long as the stabilization is not switched on at any turn, the motion sensor does not
interfere: two runs of new control loops with the same settings that differ in nothing but
the sensor, what it measures, what is stored of its calibration and whether storing works,
show the same conduct after every operation. -/
theorem sensor_unseen (t : Settings) (stored stored' : Option (CalibrationData Float32))
    {run run' : List Operation} (hrun : List.Forall₂ Operation.SameButSensor run run')
    (htuning : (⟨.ofSettings t, stored⟩ : Car).EachTurn (fun c => ¬ c.tuning.enabled) run) :
  (⟨.ofSettings t, stored'⟩ : Car).conduct run' = (⟨.ofSettings t, stored⟩ : Car).conduct run
  := by
  apply conduct_eq (t := fun car car' => car.control.SameButSensor car'.control)
    sameButSensor_step _ hrun htuning
  apply Control.sameButSensor_ofSettings

/-- A turn at which a wireless client asks for full throttle, with some sample. -/
def sampledTurn (time : Nat) (sample : Option (Sample Float32)) : Operation :=
  .turn { (Moment.plain time none).toSurroundings with
    wireless := some (.clamped 1.0 0.0)
    sample }

/-- A start with or without a motion sensor, and two such turns. -/
def sampledRun (fault : Option Fault) (sample : Option (Sample Float32)) : List Operation :=
  [.start { Startup.plain with sensorFault := fault }, sampledTurn 1000 sample,
    sampledTurn 1020 sample]

/-- A sample that holds no numbers. -/
def noNumbers : Sample Float32 :=
  ⟨⟨0.0 / 0.0, 0.0 / 0.0, 0.0 / 0.0⟩, ⟨0.0 / 0.0, 0.0 / 0.0, 0.0 / 0.0⟩⟩

/-- With a sensor that measures no numbers, the conduct is the one without a sensor. -/
theorem noNumbers_unseen :
  ((⟨.ofSettings {}, none⟩ : Car).after
      (sampledRun none (some noNumbers))).control.inertial.enabled ∧
    ¬ ((⟨.ofSettings {}, none⟩ : Car).after
      (sampledRun (some (.sensor "")) none)).control.inertial.enabled ∧
    (⟨.ofSettings {}, none⟩ : Car).conduct (sampledRun (some (.sensor "")) none)
      = (⟨.ofSettings {}, none⟩ : Car).conduct (sampledRun none (some noNumbers))
  := by
  have hrun : List.Forall₂ Operation.SameButSensor (sampledRun none (some noNumbers))
      (sampledRun (some (.sensor "")) none) :=
    .cons (.start ⟨rfl, rfl, rfl, rfl, rfl⟩)
      (.cons (.turn ⟨rfl, rfl, rfl, rfl⟩) (.cons (.turn ⟨rfl, rfl, rfl, rfl⟩) .nil))
  have htuning : (⟨.ofSettings {}, none⟩ : Car).EachTurn (fun c => ¬ c.tuning.enabled)
      (sampledRun none (some noNumbers)) := by decide +kernel
  exact ⟨by decide +kernel, by decide +kernel, sensor_unseen {} none none hrun htuning⟩

end Car

end ModelCar
