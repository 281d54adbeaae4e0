import ModelCar.Proofs.Control.Stabilization
import ModelCar.Proofs.Control.Storage

/-!
# The conduct of the car

What can be seen of the car after every operation: the command that it follows, the values
of its actuators, the state of the failsafe, and all that has moved the actuators or told
about the failsafe.  Two control loops may differ in their sensor, in their links and in
what they count, and still conduct the car alike, as long as their turns choose the same
command, make the same target of it, and agree on whether there is a source of commands.
-/

namespace ModelCar

/-! ### What moves -/

instance : (e : Effect) → Decidable e.Moves
  | .drive _ _ => .isTrue trivial
  | .neutral => .isTrue trivial
  | .failsafeChanged _ => .isTrue trivial
  | .readSensor => .isFalse id
  | .sendFrame _ => .isFalse id
  | .sendSnapshot _ => .isFalse id
  | .storeCalibration _ _ => .isFalse id
  | .storeTuning _ _ => .isFalse id
  | .answer _ _ => .isFalse id
  | .note _ => .isFalse id

/-- Those of some effects that move the actuators or tell about the failsafe, in order. -/
def motions (effects : List Effect) : List Effect :=
  effects.filter fun e => e.Moves

theorem motions_append (effects more : List Effect) :
  motions (effects ++ more) = motions effects ++ motions more
  := List.filter_append ..

theorem motions_of_still {effects : List Effect} (h : ∀ e ∈ effects, ¬ e.Moves) :
  motions effects = []
  := List.filter_eq_nil_iff.mpr fun e he => by simpa using h e he

theorem Plain.motions_eq {effects : List Effect} (h : Plain effects) :
  motions effects = []
  := motions_of_still fun e he => (h e he).1

/-- What can be seen of the car after an operation. -/
structure Conduct where
  commanded : Controls
  throttle : Float32
  steering : Float32
  failsafe : Failsafe.State
  /-- What has moved the actuators or told about the failsafe. -/
  motions : List Effect

/-- What can be seen of a control loop and of some effects. -/
def Conduct.of (result : Control × List Effect) : Conduct where
  commanded := result.1.commanded
  throttle := result.1.actuators.throttle
  steering := result.1.actuators.steering
  failsafe := result.1.failsafe.state
  motions := ModelCar.motions result.2

/-- What matters to the failsafe is whether there is a source of commands. -/
theorem Failsafe.update_congr (f : Failsafe) (now : Millis) {r w r' w' : Bool}
    (h : (r' || w') = (r || w)) :
  f.update now r' w' = f.update now r w
  := by simp only [update, h]

namespace Control

/-! ### Control loops that agree -/

/-- Two control loops agree on all that leads from a command to the actuators. -/
structure Agrees (c c' : Control) : Prop where
  settings : c'.settings = c.settings
  radio : c'.radio = c.radio
  failsafe : c'.failsafe = c.failsafe
  failsafeSeen : c'.failsafeSeen = c.failsafeSeen
  stabilizer : c'.stabilizer = c.stabilizer
  commanded : c'.commanded = c.commanded
  actuators : c'.actuators = c.actuators
  lastTurn : c'.lastTurn = c.lastTurn
  started : c'.started = c.started

variable {c c' : Control} {s s' : Surroundings}

theorem agrees_refl (c : Control) :
  c.Agrees c
  := ⟨rfl, rfl, rfl, rfl, rfl, rfl, rfl, rfl, rfl⟩

/-- Nothing else can be seen of a control loop. -/
theorem Agrees.conduct (h : c.Agrees c') {effects effects' : List Effect}
    (he : motions effects' = motions effects) :
  Conduct.of (c', effects') = Conduct.of (c, effects)
  := by rw [Conduct.of, Conduct.of, h.commanded, h.actuators, h.failsafe, he]

/-- The inertial unit does not matter, but the stabilizer does. -/
theorem Agrees.withMotion (h : c.Agrees c') {i i' : Inertial} {t t' : Stabilizer Float32}
    (ht : t' = t) :
  (c.withMotion i t).Agrees (c'.withMotion i' t')
  := { h with stabilizer := ht }

/-- Requests keep control loops in agreement that do the same to the stabilizer. -/
theorem Agrees.respond (h : c.Agrees c') {d d' : Delivery} {e e' : Control}
    {effects effects' : List Effect} (hr : Response c d e effects)
    (hr' : Response c' d' e' effects') (hs : e'.stabilizer = e.stabilizer) :
  e.Agrees e' ∧ motions effects' = motions effects
  := by
  constructor
  · rw [hr.eq_withMotion, hr'.eq_withMotion]
    exact h.withMotion hs
  · rw [motions_of_still hr.still, motions_of_still hr'.still]

/-! ### A turn -/

/-- Turns that begin alike keep control loops in agreement up to the choice of a command,
whatever their sensors and their wireless clients say. -/
theorem Agrees.noted (h : c.Agrees c') (hnow : s'.now = s.now) (hradio : s'.radio = s.radio)
    (hasked : askedTunings s'.requests = askedTunings s.requests) :
  (c.noted s).Agrees (c'.noted s')
  := by
  have hs : (c'.noted s').stabilizer = (c.noted s).stabilizer := by
    rw [noted_stabilizer, noted_stabilizer, h.stabilizer, hasked]
  rw [noted_eq c s, noted_eq c' s'] at hs ⊢
  constructor
  · exact h.settings
  · show c'.radio.update s'.now s'.radio = c.radio.update s.now s.radio
    rw [h.radio, hnow, hradio]
  · exact h.failsafe
  · exact h.failsafeSeen
  · exact hs
  · exact h.commanded
  · exact h.actuators
  · show some s'.now = some s.now
    rw [hnow]
  · exact h.started

/-- Two turns choose the same command, make the same of it, and agree on whether there is
a source of commands. -/
structure DecideAlike (c c' : Control) (s s' : Surroundings) : Prop where
  now : s'.now = s.now
  agrees : (c.noted s).Agrees (c'.noted s')
  choice : (c'.noted s').choice = (c.noted s).choice
  hasSource : (c'.noted s').hasSource = (c.noted s).hasSource
  stabilizerTurn : c'.stabilizerTurn s' = c.stabilizerTurn s

theorem DecideAlike.stabilized (h : DecideAlike c c' s s') :
  (c.stabilized s).Agrees (c'.stabilized s')
  := by
  refine { h.agrees with stabilizer := ?_, commanded := h.choice }
  rw [stabilized_stabilizer, stabilized_stabilizer, h.stabilizerTurn]

theorem DecideAlike.target (h : DecideAlike c c' s s') :
  c'.target s' = c.target s
  := by rw [target_eq, target_eq, h.stabilizerTurn]

/-- Guarding keeps the agreement of control loops that agree on whether there is a source
of commands. -/
theorem Agrees.guard (h : c.Agrees c') (hs : c'.hasSource = c.hasSource) (now : Millis)
    (target : Controls) :
  (c'.guard now target).1 = (c.guard now target).1 ∧
    (c.guard now target).2.1.Agrees (c'.guard now target).2.1 ∧
    (c'.guard now target).2.2 = (c.guard now target).2.2
  := by
  have hf : c'.failsafe.update now c'.radio.isActive c'.wireless.isActive =
      c.failsafe.update now c.radio.isActive c.wireless.isActive := by
    rw [h.failsafe]
    exact c.failsafe.update_congr now hs
  by_cases ha : (c.failsafe.update now c.radio.isActive c.wireless.isActive).isActive
  · rw [guard_of_active c target ha, guard_of_active c' target (by rwa [hf]), hf,
      h.failsafeSeen, h.actuators]
    exact ⟨rfl, { h with failsafe := rfl, failsafeSeen := rfl, commanded := rfl, actuators := rfl },
      rfl⟩
  · rw [guard_of_not_active c target ha, guard_of_not_active c' target (by rwa [hf]), hf,
      h.failsafeSeen]
    exact ⟨rfl, { h with failsafe := rfl, failsafeSeen := rfl }, rfl⟩

theorem Agrees.drive (h : c.Agrees c') (now : Millis) (target : Controls) :
  (c.drive now target).1.Agrees (c'.drive now target).1 ∧
    (c'.drive now target).2 = (c.drive now target).2
  := by
  unfold Control.drive
  rw [h.actuators, h.settings]
  split
  · exact ⟨h, rfl⟩
  · exact ⟨{ h with settings := rfl, actuators := rfl }, rfl⟩

theorem DecideAlike.guarded (h : DecideAlike c c' s s') :
  c'.goal s' = c.goal s ∧ (c.guarded s).Agrees (c'.guarded s') ∧
    ((c'.stabilized s').guard s'.now (c'.target s')).2.2
      = ((c.stabilized s).guard s.now (c.target s)).2.2
  := by
  unfold goal Control.guarded
  rw [h.now, h.target]
  exact h.stabilized.guard h.hasSource s.now (c.target s)

theorem DecideAlike.driven (h : DecideAlike c c' s s') :
  (c.driven s).Agrees (c'.driven s') ∧
    ((c'.guarded s').drive s'.now (c'.goal s')).2
      = ((c.guarded s).drive s.now (c.goal s)).2
  := by
  obtain ⟨hgoal, hagrees, -⟩ := h.guarded
  unfold Control.driven
  rw [h.now, hgoal]
  exact hagrees.drive s.now (c.goal s)

/-- Reporting and counting touch nothing else. -/
theorem turn_driven (c : Control) (s : Surroundings) :
  (c.turn s).1 =
    { c.driven s with reporter := (c.turn s).1.reporter, tally := (c.turn s).1.tally }
  := by
  rw [turn_eq, diagnose_eq, reported, report_eq]

theorem motions_turn (c : Control) (s : Surroundings) :
  motions (c.turn s).2 =
    motions ((c.stabilized s).guard s.now (c.target s)).2.2
      ++ motions ((c.guarded s).drive s.now (c.goal s)).2
  := by
  rw [turn_eq]
  simp only [motions_append, (plain_sense c s).motions_eq,
    motions_of_still (serve_still _ _), motions_of_still (noteCalibration_still _ _),
    (plain_report _ _ _).motions_eq, (plain_diagnose _ _ _).motions_eq, List.nil_append,
    List.append_nil]

/-- Turns that decide alike move alike, and the control loops agree after them. -/
theorem DecideAlike.turn (h : DecideAlike c c' s s') :
  (c.turn s).1.Agrees (c'.turn s').1 ∧ motions (c'.turn s').2 = motions (c.turn s).2
  := by
  obtain ⟨-, -, hguard⟩ := h.guarded
  obtain ⟨hagrees, hdrive⟩ := h.driven
  constructor
  · rw [turn_driven, turn_driven c']
    exact { hagrees with }
  · rw [motions_turn, motions_turn, hguard, hdrive]

/-! ### A start -/

/-- All that moves at a start is that the actuators are brought to rest. -/
theorem motions_launch (c : Control) (u : Startup) :
  motions (c.launch u).2 = [.neutral]
  := by
  have hclock (c : Control) : motions (c.startClock u.now).2 = [.neutral] := rfl
  rw [launch_eq, motions_append, hclock]
  have hp := (((plain_startRadio c u.radioFault).append
    (plain_startInertial (c.received u) u)).append
      ((plain_use (c.loaded u) (startTuning u.tuning).1).cons
        (Effect.plain_note (startTuning u.tuning).2))).append
          (plain_startCalibration (c.tuned u))
  rw [hp.motions_eq, List.nil_append]

/-- Starts that meet the same, apart from what concerns the motion sensor, lead to control
loops that agree. -/
theorem Agrees.launch (h : c.Agrees c') {u u' : Startup} (hnow : u'.now = u.now)
    (hradio : u'.radioFault = u.radioFault) (htuning : u'.tuning = u.tuning) :
  (c.launch u).1.Agrees (c'.launch u').1
  := by
  have hs : (c'.launch u').1.stabilizer = (c.launch u).1.stabilizer := by
    rw [launch_stabilizer, launch_stabilizer, h.stabilizer, htuning]
  have hr : (c'.received u').radio = (c.received u).radio := by
    rw [received, received, hradio]
    cases u.radioFault with
    | none =>
        show c'.radio.enable true = c.radio.enable true
        rw [h.radio]
    | some f => exact h.radio
  rw [launch_frame c u, launch_frame c' u'] at hs ⊢
  refine { h with radio := hr, stabilizer := hs, actuators := ?_, started := rfl }
  show { c'.actuators with pace := c'.actuators.pace.restart u'.now } =
    { c.actuators with pace := c.actuators.pace.restart u.now }
  rw [h.actuators, hnow]

theorem Agrees.start (h : c.Agrees c') (u u' : Startup) (hnow : u'.now = u.now)
    (houtput : u'.outputFault = u.outputFault)
    (hfailsafe : u'.failsafeFault = u.failsafeFault)
    (hradio : u'.radioFault = u.radioFault) (htuning : u'.tuning = u.tuning) :
  (c.start u).2.1.Agrees (c'.start u').2.1 ∧
    motions (c'.start u').2.2 = motions (c.start u).2.2
  := by
  unfold Control.start
  rw [h.started, houtput, hfailsafe]
  split
  · exact ⟨h, rfl⟩
  · split
    · exact ⟨h, rfl⟩
    · exact ⟨h, rfl⟩
    · use h.launch hnow hradio htuning
      rw [motions_launch, motions_launch]

end Control

/-! ### Runs -/

/-- A condition that only turns have to meet. -/
def Operation.OnTurn (p : Prop) : Operation → Prop
  | .turn _ => p
  | _ => True

instance (p : Prop) [Decidable p] : (op : Operation) → Decidable (op.OnTurn p)
  | .turn _ => inferInstanceAs (Decidable p)
  | .renew _ => .isTrue trivial
  | .start _ => .isTrue trivial
  | .calibrateForward => .isTrue trivial
  | .setForward _ _ => .isTrue trivial
  | .retune _ _ _ => .isTrue trivial

namespace Car

/-- What can be seen of the car after each operation of a run. -/
def conduct (car : Car) : List Operation → List Conduct
  | [] => []
  | op :: run => .of (car.perform op) :: (car.next op).conduct run

/-- The control loop meets a condition after each turn of a run. -/
def EachTurn (p : Control → Prop) (car : Car) : List Operation → Prop
  | [] => True
  | op :: run => op.OnTurn (p (car.next op).control) ∧ (car.next op).EachTurn p run

instance decidableEachTurn (p : Control → Prop) [DecidablePred p] (car : Car) :
    (run : List Operation) → Decidable (car.EachTurn p run)
  | [] => .isTrue trivial
  | op :: run =>
    have := decidableEachTurn p (car.next op) run
    inferInstanceAs (Decidable (_ ∧ _))

/-- Two runs show the same conduct if their operations keep a relation of the cars and show
the same one by one. -/
theorem conduct_eq {p : Control → Prop} {r : Operation → Operation → Prop}
    {t : Car → Car → Prop}
    (hstep : ∀ {car car' op op'}, t car car' → r op op' →
      op.OnTurn (p (car.next op).control) →
        Conduct.of (car'.perform op') = Conduct.of (car.perform op) ∧
          t (car.next op) (car'.next op'))
    {car car' : Car} (h : t car car') {run run' : List Operation}
    (hrun : List.Forall₂ r run run') (hp : car.EachTurn p run) :
  car'.conduct run' = car.conduct run
  := by
  induction hrun generalizing car car' with
  | nil => rfl
  | cons hop _ ih =>
      obtain ⟨hseen, hnext⟩ := hstep h hop hp.1
      rw [conduct, conduct, hseen, ih hnext hp.2]

end Car

end ModelCar
