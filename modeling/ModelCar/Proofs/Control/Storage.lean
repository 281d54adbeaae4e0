import ModelCar.Proofs.Control.Course
import ModelCar.Proofs.Motion.Calibration

/-!
# The stored calibration

The calibration outlives the control loop in a store, from which the next start takes it.
Whenever the loop has a motion sensor, it has valid data as long as the store has some
that a start would use: so nothing that it stores makes the store worse.  Without a
sensor it never looked at the store, its own data are not valid, and a request to set
the forward direction puts these data in the place of the good ones.
-/

namespace ModelCar

/-! ### The store -/

/-- A start with a motion sensor uses what is stored: there are data, they are valid, and
nothing speaks against them. -/
def Usable (stored : Option (CalibrationData Float32)) : Prop :=
  ∃ data, stored = some data ∧ data.valid ∧ Calibration.objection? data = none

/-- What is stored after an effect. -/
def Effect.store (stored : Option (CalibrationData Float32)) :
    Effect → Option (CalibrationData Float32)
  | .storeCalibration data none => some data
  | _ => stored

/-- What is stored after some effects. -/
def storeAll (stored : Option (CalibrationData Float32)) (effects : List Effect) :
    Option (CalibrationData Float32) :=
  effects.foldl Effect.store stored

/-- One of some effects puts data that are not valid in the place of usable ones. -/
def Degrades (stored : Option (CalibrationData Float32)) : List Effect → Prop
  | [] => False
  | e :: effects =>
    (Usable stored ∧ ∃ data, e = .storeCalibration data none ∧ ¬ data.valid) ∨
      Degrades (e.store stored) effects

variable {stored : Option (CalibrationData Float32)}

theorem storeAll_append (effects more : List Effect) :
  storeAll stored (effects ++ more) = storeAll (storeAll stored effects) more
  := List.foldl_append

theorem degrades_append (effects more : List Effect) :
  Degrades stored (effects ++ more) ↔
    Degrades stored effects ∨ Degrades (storeAll stored effects) more
  := by
  induction effects generalizing stored with
  | nil => simp [Degrades, storeAll]
  | cons e effects ih =>
      rw [List.cons_append, Degrades, Degrades, ih, or_assoc]
      rfl

theorem Effect.store_of_not {e : Effect} (h : ¬ e.StoresCalibration) :
  e.store stored = stored
  := by
  cases e with
  | storeCalibration => cases h trivial
  | _ => rfl

theorem storeAll_of_not {effects : List Effect} (h : ∀ e ∈ effects, ¬ e.StoresCalibration) :
  storeAll stored effects = stored
  := by
  induction effects with
  | nil => rfl
  | cons e effects ih =>
      obtain ⟨he, h⟩ := List.forall_mem_cons.mp h
      rw [storeAll, List.foldl_cons, Effect.store_of_not he]
      apply ih h

theorem not_degrades_of_not {effects : List Effect}
    (h : ∀ e ∈ effects, ¬ e.StoresCalibration) :
  ¬ Degrades stored effects
  := by
  induction effects with
  | nil => exact id
  | cons e effects ih =>
      obtain ⟨he, h⟩ := List.forall_mem_cons.mp h
      rintro (⟨-, data, rfl, -⟩ | hd)
      · apply he trivial
      · rw [Effect.store_of_not he] at hd
        apply ih h hd

theorem Plain.storeless {effects : List Effect} (h : Plain effects) :
  ∀ e ∈ effects, ¬ e.StoresCalibration
  := fun e he => (h e he).2

/-- Storing data and nothing else degrades a usable store if they are not valid. -/
theorem degrades_store_iff (data : CalibrationData Float32) (fault : Option Fault)
    {effects : List Effect} (h : Plain effects) :
  Degrades stored (.storeCalibration data fault :: effects) ↔
    Usable stored ∧ fault = none ∧ ¬ data.valid
  := by
  rw [Degrades, or_iff_left (not_degrades_of_not h.storeless)]
  constructor
  · rintro ⟨hu, d, he, hv⟩
    cases he
    exact ⟨hu, rfl, hv⟩
  · rintro ⟨hu, rfl, hv⟩
    exact ⟨hu, data, rfl, hv⟩

theorem storeAll_store (data : CalibrationData Float32) (fault : Option Fault)
    {effects : List Effect} (h : Plain effects) :
  storeAll stored (.storeCalibration data fault :: effects)
    = if fault = none then some data else stored
  := by
  rw [storeAll, List.foldl_cons]
  cases fault with
  | none => apply storeAll_of_not h.storeless
  | some f => apply storeAll_of_not h.storeless

theorem Usable.valid {data : CalibrationData Float32} (h : Usable (some data)) :
  data.valid
  := by
  obtain ⟨_, hd, hv, -⟩ := h
  cases hd
  exact hv

/-- A store that is usable after something was put into it, or tried to be, got valid
data or was usable before. -/
theorem Usable.of_store {data : CalibrationData Float32} {fault : Option Fault}
    (h : Usable (if fault = none then some data else stored)) :
  data.valid ∨ Usable stored
  := by
  split at h
  · left
    exact h.valid
  · right
    exact h

namespace Control

variable {c : Control}

/-! ### What the data of the loop have to do with the store -/

/-- With a motion sensor the data are valid as long as the store is usable.  Without one
they are not valid, and nothing is being calibrated. -/
structure Sound (c : Control) (stored : Option (CalibrationData Float32)) : Prop where
  valid : c.inertial.enabled → Usable stored → c.inertial.calibration.data.valid
  not_valid : ¬ c.inertial.enabled → ¬ c.inertial.calibration.data.valid
  idle : ¬ c.inertial.enabled → c.inertial.calibration.status = .idle
  started : c.inertial.enabled → c.started

theorem Sound.of_enabled (he : c.inertial.enabled) (hs : c.started)
    (hv : Usable stored → c.inertial.calibration.data.valid) :
  c.Sound stored
  := by
  constructor
  · intro _
    exact hv
  · intro hn
    contradiction
  · intro hn
    contradiction
  · intro _
    exact hs

theorem Sound.of_not_enabled (he : ¬ c.inertial.enabled)
    (hv : ¬ c.inertial.calibration.data.valid)
    (hi : c.inertial.calibration.status = .idle) :
  c.Sound stored
  := by
  constructor
  · intro hy
    contradiction
  · intro _
    exact hv
  · intro _
    exact hi
  · intro hy
    contradiction

/-- A request sets the forward direction, and nothing keeps it from being stored. -/
def SetsForward (d : Delivery) : Prop :=
  (∃ v, d.request = .setForward v) ∧ d.fault = none

theorem Sound.sense (h : c.Sound stored) (s : Surroundings) :
  (c.sensed s).Sound stored
  := by
  have he : (c.sensed s).inertial.enabled = c.inertial.enabled := Inertial.update_enabled ..
  have hoff (hn : ¬ c.inertial.enabled) : (c.sensed s).inertial = c.inertial :=
    Inertial.update_of_not_enabled hn _ _
  constructor
  · intro hs hu
    rw [he] at hs
    exact Inertial.valid_update _ _ (h.valid hs hu)
  · intro hs
    rw [he] at hs
    rw [hoff hs]
    apply h.not_valid hs
  · intro hs
    rw [he] at hs
    rw [hoff hs]
    apply h.idle hs
  · intro hs
    rw [he] at hs
    apply h.started hs

/-- Without a sensor no request starts a calibration. -/
theorem Sound.not_restarts (h : c.Sound stored) (he : ¬ c.inertial.enabled) (r : Request) :
  ¬ c.Restarts r
  := by
  intro hr
  cases r with
  | calibrate full => exact he hr
  | calibrateForward =>
      apply h.not_valid he
      exact (Bool.and_eq_true_iff.mp hr.2).1
  | setForward v => exact hr
  | retune t keep => exact hr
  | query => exact hr

/-- A request keeps the data and the store in step. -/
theorem Sound.response (h : c.Sound stored) {c' : Control} {d : Delivery}
    {effects : List Effect} (hr : Response c d c' effects) :
  c'.Sound (storeAll stored effects)
  := by
  cases hr with
  | restart mode target hr hp =>
      have he : c.inertial.enabled := by
        by_contra he
        exact h.not_restarts he _ hr
      rw [storeAll_of_not hp.storeless]
      apply Sound.of_enabled
      · exact he
      · exact h.started he
      · exact h.valid he
  | forward v hv hp =>
      rw [storeAll_store _ _ hp]
      constructor
      · intro he hu
        exact hu.of_store.elim id (h.valid he)
      · exact h.not_valid
      · exact h.idle
      · exact h.started
  | retune t ht hp =>
      rw [storeAll_of_not hp.storeless]
      exact ⟨h.valid, h.not_valid, h.idle, h.started⟩
  | stay hn hf hp =>
      rw [storeAll_of_not hp.storeless]
      exact h

/-- A request makes the store worse exactly if it stores the forward direction without
a sensor. -/
theorem Sound.degrades_response_iff (h : c.Sound stored) {c' : Control} {d : Delivery}
    {effects : List Effect} (hr : Response c d c' effects) :
  Degrades stored effects ↔ Usable stored ∧ ¬ c.inertial.enabled ∧ SetsForward d
  := by
  obtain ⟨v, more, hv, -, hp, rfl⟩ | ⟨hf, -, hp⟩ := hr.forward_or_plain
  · rw [degrades_store_iff _ _ hp, forwarded_data]
    constructor
    · intro ⟨hu, hf, hn⟩
      exact ⟨hu, fun he => hn (h.valid he hu), ⟨v, hv⟩, hf⟩
    · intro ⟨hu, he, _, hf⟩
      exact ⟨hu, hf, h.not_valid he⟩
  · constructor
    · intro hd
      cases not_degrades_of_not hp.storeless hd
    · intro ⟨_, _, ⟨v, hv⟩, _⟩
      cases hf v hv

/-- Without a sensor a request leaves a usable store usable or makes it worse, and never
makes a store usable. -/
theorem Sound.usable_response_iff (h : c.Sound stored) (he : ¬ c.inertial.enabled)
    {c' : Control} {d : Delivery} {effects : List Effect}
    (hr : Response c d c' effects) :
  Usable (storeAll stored effects) ↔ Usable stored ∧ ¬ SetsForward d
  := by
  obtain ⟨v, more, hv, -, hp, rfl⟩ | ⟨hf, -, hp⟩ := hr.forward_or_plain
  · rw [storeAll_store _ _ hp]
    constructor
    · intro hu
      split at hu
      · cases h.not_valid he hu.valid
      · rename_i hf
        use hu
        intro hs
        exact hf hs.2
    · intro ⟨hu, hn⟩
      rw [if_neg fun hf => hn ⟨⟨v, hv⟩, hf⟩]
      exact hu
  · rw [storeAll_of_not hp.storeless]
    constructor
    · intro hu
      use hu
      intro ⟨⟨v, hv⟩, _⟩
      exact hf v hv
    · exact And.left

/-! ### A turn -/

theorem Sound.serve (h : c.Sound stored) (ds : List Delivery) :
  (c.serve ds).1.Sound (storeAll stored (c.serve ds).2)
  := by
  induction ds generalizing c stored with
  | nil => exact h
  | cons d ds ih =>
      rw [serve_cons, storeAll_append]
      apply ih
      apply h.response (handle_response c d)

theorem Sound.degrades_serve_iff (h : c.Sound stored) (ds : List Delivery) :
  Degrades stored (c.serve ds).2 ↔
    Usable stored ∧ ¬ c.inertial.enabled ∧ ∃ d ∈ ds, SetsForward d
  := by
  induction ds generalizing c stored with
  | nil => simp [Control.serve, Degrades]
  | cons d ds ih =>
      have hr := handle_response c d
      rw [serve_cons, degrades_append, h.degrades_response_iff hr, ih (h.response hr),
        hr.enabled]
      by_cases he : c.inertial.enabled
      · simp [he]
      · rw [h.usable_response_iff he hr]
        by_cases hd : SetsForward d
        · simp [hd]
        · simp [hd]

/-- Only the inertial unit and the start matter. -/
theorem Sound.congr (h : c.Sound stored) {c' : Control} (hi : c'.inertial = c.inertial)
    (hs : c'.started = c.started) :
  c'.Sound stored
  := by
  constructor
  · rw [hi]
    exact h.valid
  · rw [hi]
    exact h.not_valid
  · rw [hi]
    exact h.idle
  · rw [hi, hs]
    exact h.started

/-- Noting the end of a calibration keeps the data and the store in step, and never makes
the store worse. -/
theorem Sound.noteCalibration (h : c.Sound stored) (fault : Option Fault) :
  (c.noteCalibration fault).1.Sound (storeAll stored (c.noteCalibration fault).2) ∧
    ¬ Degrades stored (c.noteCalibration fault).2
  := by
  by_cases hd : c.inertial.calibration.status = .done ∧ c.calibrationSeen ≠ .done
  · have he : c.inertial.enabled := by
      by_contra he
      have hidle := h.idle he
      rw [hd.1] at hidle
      cases hidle
    obtain ⟨notice, hn⟩ := noteCalibration_of_done fault hd.1 hd.2
    have hp : Plain [.note notice] := plain_nil.cons (Effect.plain_note _)
    rw [hn]
    constructor
    · show Sound _ (storeAll stored (.storeCalibration _ fault :: [.note notice]))
      rw [storeAll_store _ _ hp]
      apply Sound.of_enabled
      · exact he
      · exact h.started he
      · intro hu
        exact hu.of_store.elim id (h.valid he)
    · rintro (⟨-, _, he, -⟩ | hdeg)
      · cases he
      · obtain ⟨hu, -, hv⟩ := (degrades_store_iff _ _ hp).mp hdeg
        exact hv (h.valid he hu)
  · obtain ⟨hi, hp⟩ := noteCalibration_of_not_done fault hd
    rw [storeAll_of_not hp.storeless]
    use h.congr hi (by rw [noteCalibration_eq])
    apply not_degrades_of_not hp.storeless

theorem storeAll_turn (c : Control) (s : Surroundings) :
  storeAll stored (c.turn s).2 =
    storeAll (storeAll stored ((c.sensed s).serve s.requests).2)
      ((c.served s).noteCalibration s.fault).2
  := by
  obtain ⟨before, after, hq, h⟩ := turn_stores c s
  obtain ⟨hb, ha⟩ := List.forall_mem_append.mp hq
  rw [h, storeAll_append, storeAll_append, storeAll_append, storeAll_of_not hb,
    storeAll_of_not ha]

theorem degrades_turn (c : Control) (s : Surroundings) :
  Degrades stored (c.turn s).2 ↔
    Degrades stored ((c.sensed s).serve s.requests).2 ∨
      Degrades (storeAll stored ((c.sensed s).serve s.requests).2)
        ((c.served s).noteCalibration s.fault).2
  := by
  obtain ⟨before, after, hq, h⟩ := turn_stores c s
  obtain ⟨hb, ha⟩ := List.forall_mem_append.mp hq
  rw [h, degrades_append, degrades_append, degrades_append, storeAll_append,
    storeAll_of_not hb, or_iff_left (not_degrades_of_not ha),
    or_iff_right (not_degrades_of_not hb)]

theorem Sound.served (h : c.Sound stored) (s : Surroundings) :
  (c.served s).Sound (storeAll stored ((c.sensed s).serve s.requests).2)
  := (h.sense s).serve s.requests

theorem Sound.turn (h : c.Sound stored) (s : Surroundings) :
  (c.turn s).1.Sound (storeAll stored (c.turn s).2)
  := by
  have hn : (c.noted s).Sound _ := ((h.served s).noteCalibration s.fault).1
  rw [storeAll_turn]
  apply hn.congr (turn_inertial c s)
  rw [turn_started, noted_eq]

/-- A turn makes the store worse exactly if it serves a request that stores the forward
direction without a sensor. -/
theorem Sound.degrades_turn_iff (h : c.Sound stored) (s : Surroundings) :
  Degrades stored (c.turn s).2 ↔
    Usable stored ∧ ¬ c.inertial.enabled ∧ ∃ d ∈ s.requests, SetsForward d
  := by
  have he : (c.sensed s).inertial.enabled = c.inertial.enabled := Inertial.update_enabled ..
  have hn := ((h.served s).noteCalibration s.fault).2
  rw [degrades_turn, or_iff_left hn, (h.sense s).degrades_serve_iff, he]

/-! ### A start -/

theorem sound_ofSettings (t : Settings) :
  (ofSettings t).Sound stored
  := by
  apply Sound.of_not_enabled
  · intro he
    cases he
  · intro hv
    cases hv
  · rfl

theorem start_storeless (c : Control) (s : Startup) :
  ∀ e ∈ (c.start s).2.2, ¬ e.StoresCalibration
  := by
  obtain ⟨-, h⟩ | ⟨-, hp⟩ := start_cases c s
  · rw [h]
    intro e he
    obtain rfl | hp := mem_launch c s he
    · exact id
    · exact hp.2
  · exact hp.storeless

/-- A start that loads what is stored keeps the data and the store in step. -/
theorem Sound.start (h : c.Sound stored) {s : Startup} (hs : s.calibration = stored) :
  (c.start s).2.1.Sound stored
  := by
  obtain ⟨hn, hl⟩ | ⟨hc, -⟩ := start_cases c s
  · have hoff : ¬ c.inertial.enabled := fun he => hn (h.started he)
    have hstarted : (c.launch s).1.started := by rw [launch_frame]
    rw [hl]
    by_cases hf : s.sensorFault = none
    · obtain ⟨he, hdata⟩ := launch_of_sensor c s hf
      apply Sound.of_enabled he hstarted
      intro ⟨data, hd, hv, hno⟩
      rw [hdata, hs, hd, Option.elim_some, Calibration.valid_load hno]
      exact hv
    · obtain ⟨he, hcal⟩ := launch_of_no_sensor c s hoff hf
      apply Sound.of_not_enabled he
      · rw [hcal]
        exact h.not_valid hoff
      · rw [hcal]
        exact h.idle hoff
  · rw [hc]
    exact h

end Control

/-! ### Runs of operations -/

/-- Something that is done with a control loop and its store. -/
inductive Operation where
  /-- Puts a new control loop in the place of the old one. -/
  | renew (settings : Settings)
  /-- Starts the control loop, with the stored calibration. -/
  | start (startup : Startup)
  | turn (surroundings : Surroundings)
  | calibrateForward
  | setForward (direction : Vector3 Float32) (fault : Option Fault)
  | retune (tuning : Tuning Float32) (keep : Bool) (fault : Option Fault)

/-- An operation sets the forward direction, or serves a request that does, and nothing
keeps it from being stored. -/
def Operation.SetsForward : Operation → Prop
  | .turn s => ∃ d ∈ s.requests, Control.SetsForward d
  | .setForward _ fault => fault = none
  | _ => False

/-- A control loop with its store. -/
structure Car where
  control : Control
  stored : Option (CalibrationData Float32)

namespace Car

/-- The control loop after an operation, and what the operation does. -/
def perform (car : Car) : Operation → Control × List Effect
  | .renew t => (.ofSettings t, [])
  | .start s => (car.control.start { s with calibration := car.stored }).2
  | .turn s => car.control.turn s
  | .calibrateForward => car.control.calibrateForward.2
  | .setForward v fault => (car.control.setForward v fault).2
  | .retune t keep fault => (car.control.retune t keep fault).2

/-- The car after an operation. -/
def next (car : Car) (op : Operation) : Car :=
  ⟨(car.perform op).1, storeAll car.stored (car.perform op).2⟩

/-- The car after a run of operations. -/
def after (car : Car) (run : List Operation) : Car :=
  run.foldl next car

/-- What a run of operations does, in order. -/
def effects (car : Car) : List Operation → List Effect
  | [] => []
  | op :: run => (car.perform op).2 ++ (car.next op).effects run

theorem after_concat (car : Car) (run : List Operation) (op : Operation) :
  car.after (run ++ [op]) = (car.after run).next op
  := List.foldl_concat ..

theorem effects_concat (car : Car) (run : List Operation) (op : Operation) :
  car.effects (run ++ [op]) = car.effects run ++ ((car.after run).perform op).2
  := by
  induction run generalizing car with
  | nil => exact List.append_nil _
  | cons first run ih =>
      rw [List.cons_append, effects, effects, ih, List.append_assoc]
      rfl

/-- What every operation keeps holds after a run of operations. -/
theorem after_of_next {P : Car → Prop} {car : Car} (h : P car)
    (hn : ∀ car op, P car → P (next car op)) (run : List Operation) :
  P (car.after run)
  := by
  induction run generalizing car with
  | nil => exact h
  | cons op run ih =>
      apply ih
      apply hn _ _ h

/-- What every operation but a renewal keeps, of a control loop and all that has been done
with it, holds after a run without renewals. -/
theorem of_perform {P : Control → List Effect → Prop} {car : Car} (h : P car.control [])
    (hn : ∀ (car : Car) (op : Operation) (effects : List Effect), (∀ u, op ≠ .renew u) →
      P car.control effects → P (car.perform op).1 (effects ++ (car.perform op).2))
    {run : List Operation} (hrun : ∀ u, .renew u ∉ run) :
  P (car.after run).control (car.effects run)
  := by
  induction run using List.reverseRecOn with
  | nil => exact h
  | append_singleton run op ih =>
      have hop : ∀ u, op ≠ .renew u := by
        rintro u rfl
        exact hrun u (List.mem_append_right _ (List.mem_singleton_self _))
      rw [after_concat, effects_concat]
      apply hn _ op _ hop
      apply ih
      intro u hu
      exact hrun u (List.mem_append_left _ hu)

/-- A run of operations leads from a new control loop, with anything in the store, to the
car as it is. -/
def IsReachable (car : Car) : Prop :=
  ∃ t stored run, car = (⟨.ofSettings t, stored⟩ : Car).after run

/-- What holds at the beginning and is kept by every operation holds of every car that can
be reached. -/
theorem IsReachable.of_next {P : Car → Prop} {car : Car} (h : car.IsReachable)
    (hnew : ∀ t stored, P ⟨.ofSettings t, stored⟩)
    (hn : ∀ car op, P car → P (next car op)) :
  P car
  := by
  obtain ⟨t, stored, run, rfl⟩ := h
  apply after_of_next (hnew t stored) hn

/-- The data of the control loop are in step with the store. -/
def Sound (car : Car) : Prop :=
  car.control.Sound car.stored

variable {car : Car}

/-- Every operation keeps the data and the store in step. -/
theorem Sound.next (h : car.Sound) (op : Operation) :
  (car.next op).Sound
  := by
  cases op with
  | renew t => exact Control.sound_ofSettings t
  | start s =>
      have hq := Control.start_storeless car.control { s with calibration := car.stored }
      rw [Car.Sound, Car.next, perform, storeAll_of_not hq]
      exact Control.Sound.start h rfl
  | turn s => exact Control.Sound.turn h s
  | calibrateForward =>
      exact Control.Sound.response h (Control.calibrateForward_response _ 0 none)
  | setForward v fault =>
      exact Control.Sound.response h (Control.setForward_response _ v 0 fault)
  | retune t keep fault =>
      exact Control.Sound.response h (Control.retune_response _ t keep 0 fault)

theorem Sound.after (h : car.Sound) (run : List Operation) :
  (car.after run).Sound
  := after_of_next h (fun _ op hc => hc.next op) run

/-- An operation makes the store worse exactly if it stores the forward direction without
a sensor. -/
theorem Sound.degrades_iff (h : car.Sound) (op : Operation) :
  Degrades car.stored (car.perform op).2 ↔
    Usable car.stored ∧ ¬ car.control.inertial.enabled ∧ op.SetsForward
  := by
  cases op with
  | renew t => simp [perform, Degrades, Operation.SetsForward]
  | start s =>
      simp only [Operation.SetsForward, and_false, iff_false]
      apply not_degrades_of_not
      apply Control.start_storeless
  | turn s => exact Control.Sound.degrades_turn_iff h s
  | calibrateForward =>
      have hr := Control.calibrateForward_response car.control 0 none
      rw [perform, Control.Sound.degrades_response_iff h hr]
      simp [Control.SetsForward, Operation.SetsForward]
  | setForward v fault =>
      have hr := Control.setForward_response car.control v 0 fault
      rw [perform, Control.Sound.degrades_response_iff h hr]
      simp [Control.SetsForward, Operation.SetsForward]
  | retune t keep fault =>
      have hr := Control.retune_response car.control t keep 0 fault
      rw [perform, Control.Sound.degrades_response_iff h hr]
      simp [Control.SetsForward, Operation.SetsForward]

/-- A new control loop that starts with a motion sensor makes use of a usable store. -/
theorem Sound.valid_of_renew (h : car.Sound) (hu : Usable car.stored) (t : Settings)
    {s : Startup} (hoff : s.outputFault = none) (hfail : s.failsafeFault = none)
    (hs : s.sensorFault = none) :
  ((car.next (.renew t)).next (.start s)).control.inertial.calibration.data.valid
  := by
  have hsound := (h.next (.renew t)).next (.start s)
  have hstored : ((car.next (.renew t)).next (.start s)).stored = car.stored :=
    storeAll_of_not (Control.start_storeless _ _)
  apply hsound.valid
  · have hl : (Control.ofSettings t).start { s with calibration := car.stored }
        = (.ok (), (Control.ofSettings t).launch { s with calibration := car.stored }) := by
      simp [Control.start, Control.ofSettings, hoff, hfail]
    show ((Control.ofSettings t).start
      { s with calibration := car.stored }).2.1.inertial.enabled
    rw [hl]
    exact (Control.launch_of_sensor _ { s with calibration := car.stored } hs).1
  · rw [hstored]
    exact hu

/-- A control loop that has just been made is in step with any store. -/
theorem sound_fresh (t : Settings) (stored : Option (CalibrationData Float32)) :
  (⟨.ofSettings t, stored⟩ : Car).Sound
  := Control.sound_ofSettings t

/-- Whatever was stored at first, and after any run of operations, an operation puts data
that are not valid in the place of usable ones exactly if it stores the forward direction
while there is no motion sensor; and as long as the stored data are usable, the next
start with a motion sensor ends with valid data. -/
theorem good_calibration_degraded_iff (t : Settings)
    (stored : Option (CalibrationData Float32)) (run : List Operation) :
  (∀ op, Degrades ((⟨.ofSettings t, stored⟩ : Car).after run).stored
      (((⟨.ofSettings t, stored⟩ : Car).after run).perform op).2 ↔
    Usable ((⟨.ofSettings t, stored⟩ : Car).after run).stored ∧
      ¬ ((⟨.ofSettings t, stored⟩ : Car).after run).control.inertial.enabled ∧
      op.SetsForward) ∧
  (Usable ((⟨.ofSettings t, stored⟩ : Car).after run).stored →
    ∀ (u : Settings) (s : Startup), s.outputFault = none → s.failsafeFault = none →
      s.sensorFault = none →
      ((((⟨.ofSettings t, stored⟩ : Car).after run).next (.renew u)).next
        (.start s)).control.inertial.calibration.data.valid)
  := by
  have h := (sound_fresh t stored).after run
  constructor
  · exact h.degrades_iff
  · intro hu u s hoff hfail hs
    exact h.valid_of_renew hu u hoff hfail hs

/-- Data of a motion sensor that needs no correction. -/
def goodData : CalibrationData Float32 :=
  ⟨.zero, .zero, .down, .ahead, true⟩

/-- A start without a motion sensor and a forward direction set by hand are enough to
lose a good calibration. -/
theorem good_calibration_lost :
  ∃ (t : Settings) (stored : Option (CalibrationData Float32)) (run : List Operation)
      (op : Operation),
    Usable ((⟨.ofSettings t, stored⟩ : Car).after run).stored ∧
      ∃ data, ((⟨.ofSettings t, stored⟩ : Car).after (run ++ [op])).stored = some data ∧
        ¬ data.valid
  := by
  use {}, some goodData, [.start { Startup.plain with sensorFault := some (.sensor "none") }],
    .setForward .ahead none
  constructor
  · use goodData
    decide +kernel
  · use { CalibrationData.unknown with forward := givenForward .ahead }
    decide +kernel

end Car

end ModelCar
