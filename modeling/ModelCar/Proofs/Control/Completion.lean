import ModelCar.Proofs.Control.Course

/-!
# The end of a calibration

The end of a calibration is noted by comparing its status with the one at the turn
before.  Requests are served between the last sample and this comparison, and one that
starts a calibration anew hides the end of the last one: its results are neither stored
nor used for the attitude of the car, unless a request to set the forward direction
happens to store them.  Without such a request nothing is lost.
-/

namespace ModelCar

/-- Data contain what a calibration has found out in its mode. -/
def CalibrationData.Contains (data : CalibrationData Float32) (mode : Calibration.Mode)
    (found : CalibrationData Float32) : Prop :=
  match mode with
  | .gyro => data.rateBias = found.rateBias ∧ data.valid = found.valid
  | .full =>
    data.rateBias = found.rateBias ∧ data.accelerationBias = found.accelerationBias ∧
      data.gravity = found.gravity ∧ data.valid = found.valid
  | .forward => data.forward = found.forward

/-- Another forward direction hides the results of the second stage only. -/
theorem CalibrationData.contains_withForward_iff (data : CalibrationData Float32)
    (mode : Calibration.Mode) (v : Vector3 Float32) :
  (data.withForward v).Contains mode data ↔
    mode ≠ .forward ∨ givenForward v = data.forward
  := by
  cases mode with
  | gyro => simp [Contains, withForward]
  | full => simp [Contains, withForward]
  | forward => simp [Contains, withForward]

theorem CalibrationData.contains_self (data : CalibrationData Float32)
    (mode : Calibration.Mode) :
  data.Contains mode data
  := by cases mode <;> simp [Contains]

namespace Control

variable {c : Control}

/-! ### Requests and the calibration -/

theorem handle_withForward (c : Control) (d : Delivery) (v : Vector3 Float32) :
  (c.handle d).1.inertial.calibration.data.withForward v
    = c.inertial.calibration.data.withForward v
  := by
  obtain ⟨u, -, -, h, -⟩ | ⟨-, h, -⟩ := (handle_response c d).forward_or_plain
  · rw [h]
    rfl
  · rw [h]

/-- The data that requests store are those that were there, with the forward direction
set by hand. -/
theorem mem_serve_store_iff (c : Control) (ds : List Delivery)
    {data : CalibrationData Float32} {fault : Option Fault} :
  .storeCalibration data fault ∈ (c.serve ds).2 ↔
    ∃ d ∈ ds, ∃ v, d.request = .setForward v ∧ d.fault = fault ∧
      data = c.inertial.calibration.data.withForward v
  := by
  induction ds generalizing c with
  | nil => simp [serve]
  | cons d ds ih =>
      rw [serve_cons, List.mem_append, (handle_response c d).mem_store_iff, ih]
      simp only [List.mem_cons, exists_eq_or_imp, handle_withForward]

/-- Serving requests changes at most the forward direction in the data. -/
theorem serve_data (c : Control) (ds : List Delivery) :
  (∀ d ∈ ds, ∀ v, d.request ≠ .setForward v) ∧
      (c.serve ds).1.inertial.calibration.data = c.inertial.calibration.data ∨
    ∃ d ∈ ds, ∃ v, d.request = .setForward v ∧
      (c.serve ds).1.inertial.calibration.data
        = c.inertial.calibration.data.withForward v
  := by
  induction ds generalizing c with
  | nil =>
      left
      constructor
      · intro d hd
        cases hd
      · rfl
  | cons d ds ih =>
      rw [serve_cons]
      obtain ⟨hs, hdata⟩ | ⟨e, he, v, hv, hdata⟩ := ih (c.handle d).1
      · obtain ⟨v, -, hv, h, -⟩ | ⟨hf, h, -⟩ := (handle_response c d).forward_or_plain
        · right
          use d, List.mem_cons_self, v, hv
          rw [hdata, h, forwarded_data]
        · left
          rw [hdata, h]
          use List.forall_mem_cons.mpr ⟨hf, hs⟩
      · right
        use e, List.mem_cons_of_mem _ he, v, hv
        rw [hdata, handle_withForward]

/-- A calibration that is running goes on while requests are served. -/
theorem serve_of_collecting (ds : List Delivery)
    (h : c.inertial.calibration.status = .collecting) :
  (c.serve ds).1.inertial.calibration.status = .collecting
  := by
  induction ds generalizing c with
  | nil => exact h
  | cons d ds ih =>
      rw [serve_cons]
      apply ih
      by_cases hr : c.Restarts d.request
      · apply (handle_response c d).status_of_restarts hr
      · rw [(handle_response c d).status_of_not_restarts hr, h]

/-- One request that starts a calibration anew is enough. -/
theorem serve_of_restarts {ds : List Delivery} {d : Delivery} (hd : d ∈ ds)
    (hr : c.Restarts d.request) :
  (c.serve ds).1.inertial.calibration.status = .collecting
  := by
  induction ds generalizing c with
  | nil => cases hd
  | cons e ds ih =>
      rw [serve_cons]
      by_cases he : c.Restarts e.request
      · apply serve_of_collecting
        apply (handle_response c e).status_of_restarts he
      · obtain rfl | hd := List.mem_cons.mp hd
        · contradiction
        · apply ih hd
          apply ((handle_response c e).restarts_iff he _).mpr hr

/-- Without such a request the status stays. -/
theorem serve_of_not_restarts {ds : List Delivery}
    (hr : ∀ d ∈ ds, ¬ c.Restarts d.request) :
  (c.serve ds).1.inertial.calibration.status = c.inertial.calibration.status
  := by
  induction ds generalizing c with
  | nil => rfl
  | cons e ds ih =>
      obtain ⟨he, hr⟩ := List.forall_mem_cons.mp hr
      rw [serve_cons, ih, (handle_response c e).status_of_not_restarts he]
      intro d hd
      rw [(handle_response c e).restarts_iff he]
      apply hr d hd

/-- The states that the control loop goes through while it serves requests. -/
def serving (c : Control) : List Delivery → List Control
  | [] => []
  | d :: ds => (c.handle d).1 :: (c.handle d).1.serving ds

/-- Setting the forward direction turns the attitude into the one of the car, with the
data that are stored. -/
theorem exists_aligned_of_mem (c : Control) {ds : List Delivery} {d : Delivery}
    (hd : d ∈ ds) {v : Vector3 Float32} (hv : d.request = .setForward v) :
  ∃ k ∈ c.serving ds,
    k.inertial.calibration.data = c.inertial.calibration.data.withForward v ∧
      k.inertial.align = k.inertial
  := by
  induction ds generalizing c with
  | nil => cases hd
  | cons e ds ih =>
      obtain rfl | hd := List.mem_cons.mp hd
      · obtain ⟨u, -, hu, h, -⟩ | ⟨hf, -⟩ := (handle_response c d).forward_or_plain
        · obtain rfl : u = v := by rwa [hu, Request.setForward.injEq] at hv
          use (c.handle d).1, List.mem_cons_self
          rw [h]
          use rfl
          rfl
        · cases hf v hv
      · obtain ⟨k, hk, hdata, halign⟩ := ih (c.handle e).1 hd
        use k, List.mem_cons_of_mem _ hk
        rw [hdata, handle_withForward]
        use rfl

/-! ### The status that is kept in mind -/

theorem seen_of_next (c : Control) (m : Moment) :
  (c.next m).calibrationSeen = (c.next m).inertial.calibration.status
  := by
  rw [next, turn_calibrationSeen, turn_inertial, noted, (noteCalibration_calibration _ _).1]

/-- Before every turn the status that is kept in mind is the status of the
calibration. -/
theorem seen_of_begun (s : Startup) (σ : Settings) (run : List Moment) :
  ((begun s σ).after run).calibrationSeen
    = ((begun s σ).after run).inertial.calibration.status
  := by
  apply after_of_next (P := fun c => c.calibrationSeen = c.inertial.calibration.status)
  · obtain ⟨-, h⟩ | ⟨h, -⟩ := start_cases (ofSettings σ) s
    · rw [begun, h, launch_frame]
    · rw [begun, h]
      rfl
  · intro c m _
    apply seen_of_next

/-! ### The turn of the last sample -/

/-- The last sample of a calibration comes at a turn, and completes it. -/
def Finishes (c : Control) (s : Surroundings) : Prop :=
  c.inertial.calibration.status = .collecting ∧
    (c.sensed s).inertial.calibration.status = .done

instance (c : Control) (s : Surroundings) : Decidable (c.Finishes s) :=
  inferInstanceAs (Decidable (_ ∧ _))

/-- In a turn the results of a calibration are kept: data that contain them are stored,
and at some point of the turn the attitude is the one of a car with these data. -/
def Keeps (c : Control) (s : Surroundings) : Prop :=
  ∃ data fault, .storeCalibration data fault ∈ (c.turn s).2 ∧
    data.Contains (c.sensed s).inertial.calibration.mode
      (c.sensed s).inertial.calibration.data ∧
    ∃ k ∈ (c.sensed s).serving s.requests ++ [c.noted s],
      k.inertial.calibration.data = data ∧ k.inertial.align = k.inertial

/-- What is stored in a turn is stored for a request or at the end of a calibration. -/
theorem mem_turn_store_iff (c : Control) (s : Surroundings)
    {data : CalibrationData Float32} {fault : Option Fault} :
  .storeCalibration data fault ∈ (c.turn s).2 ↔
    .storeCalibration data fault ∈ ((c.sensed s).serve s.requests).2 ∨
      .storeCalibration data fault ∈ ((c.served s).noteCalibration s.fault).2
  := by
  obtain ⟨before, after, hquiet, h⟩ := turn_stores c s
  have hb : .storeCalibration data fault ∉ before :=
    fun hm => hquiet _ (List.mem_append_left _ hm) trivial
  have ha : .storeCalibration data fault ∉ after :=
    fun hm => hquiet _ (List.mem_append_right _ hm) trivial
  rw [h]
  simp only [List.mem_append, hb, ha, false_or, or_false]

theorem served_calibrationSeen (c : Control) (s : Surroundings) :
  (c.served s).calibrationSeen = c.calibrationSeen
  := by
  rw [served_eq]
  rfl

/-- A request that sets the forward direction keeps the results that survive it. -/
theorem keeps_of_setForward {s : Surroundings} {d : Delivery} (hd : d ∈ s.requests)
    {v : Vector3 Float32} (hv : d.request = .setForward v)
    (hmode : (c.sensed s).inertial.calibration.mode ≠ .forward ∨
      givenForward v = (c.sensed s).inertial.calibration.data.forward) :
  c.Keeps s
  := by
  use (c.sensed s).inertial.calibration.data.withForward v, d.fault
  use (mem_turn_store_iff c s).mpr (.inl ((mem_serve_store_iff _ _).mpr
    ⟨d, hd, v, hv, rfl, rfl⟩))
  use (CalibrationData.contains_withForward_iff _ _ _).mpr hmode
  obtain ⟨k, hk, hdata, halign⟩ := exists_aligned_of_mem (c.sensed s) hd hv
  use k, List.mem_append_left _ hk

/-- A calibration that is done when the requests have been served, with its data
unchanged, is noted and thereby kept. -/
theorem keeps_of_served {s : Surroundings}
    (hd : (c.served s).inertial.calibration.status = .done)
    (hseen : (c.served s).calibrationSeen ≠ .done)
    (hdata : (c.served s).inertial.calibration.data
      = (c.sensed s).inertial.calibration.data) :
  c.Keeps s
  := by
  obtain ⟨notice, hnote⟩ := noteCalibration_of_done s.fault hd hseen
  use (c.sensed s).inertial.calibration.data, s.fault
  constructor
  · apply (mem_turn_store_iff c s).mpr
    right
    rw [hnote, hdata]
    simp
  · use CalibrationData.contains_self _ _
    use c.noted s, List.mem_append_right _ (List.mem_singleton_self _)
    rw [noted, hnote]
    use hdata
    rfl

/-- What is stored when the end of a calibration is noted are its data, and it is done. -/
theorem noteCalibration_store {data : CalibrationData Float32} {fault given : Option Fault}
    (hm : .storeCalibration data fault ∈ (c.noteCalibration given).2) :
  c.inertial.calibration.status = .done ∧ data = c.inertial.calibration.data
  := by
  by_cases h : c.inertial.calibration.status = .done ∧ c.calibrationSeen ≠ .done
  · obtain ⟨notice, hnote⟩ := noteCalibration_of_done given h.1 h.2
    rw [hnote] at hm
    simp at hm
    exact ⟨h.1, hm.1⟩
  · cases (noteCalibration_of_not_done given h).2.not_mem_store _ _ hm

/-- Whatever keeps the results of a calibration, either a request sets the forward
direction and they survive that, or no request interferes. -/
theorem setForward_or_quiet_of_keeps {s : Surroundings} (h : c.Keeps s) :
  (∃ d ∈ s.requests, ∃ v, d.request = .setForward v ∧
      ((c.sensed s).inertial.calibration.mode ≠ .forward ∨
        givenForward v = (c.sensed s).inertial.calibration.data.forward)) ∨
    ∀ d ∈ s.requests, ¬ (c.sensed s).Restarts d.request ∧
      ∀ v, d.request ≠ .setForward v
  := by
  obtain ⟨data, fault, hstore, hcontains, -⟩ := h
  obtain hm | hm := (mem_turn_store_iff c s).mp hstore
  · left
    obtain ⟨d, hd, v, hv, -, rfl⟩ := (mem_serve_store_iff _ _).mp hm
    use d, hd, v, hv
    apply (CalibrationData.contains_withForward_iff _ _ _).mp hcontains
  · obtain ⟨hdone, hdata⟩ := noteCalibration_store hm
    obtain ⟨hf, -⟩ | ⟨d, hd, v, hv, hs⟩ := serve_data (c.sensed s) s.requests
    · right
      intro d hmem
      refine ⟨fun hr => ?_, hf d hmem⟩
      have hc := serve_of_restarts hmem hr
      rw [← served, hdone] at hc
      cases hc
    · left
      use d, hd, v, hv
      rw [hdata, served, hs] at hcontains
      apply (CalibrationData.contains_withForward_iff _ _ _).mp hcontains

/-- The results of a calibration whose last sample comes at a turn are kept exactly in
two cases: a request sets the forward direction and thereby stores them, or no request
interferes. -/
theorem keeps_iff_of_finishes {s : Surroundings}
    (hseen : c.calibrationSeen = c.inertial.calibration.status) (h : c.Finishes s) :
  c.Keeps s ↔
    (∃ d ∈ s.requests, ∃ v, d.request = .setForward v ∧
        ((c.sensed s).inertial.calibration.mode ≠ .forward ∨
          givenForward v = (c.sensed s).inertial.calibration.data.forward)) ∨
      ∀ d ∈ s.requests, ¬ (c.sensed s).Restarts d.request ∧
        ∀ v, d.request ≠ .setForward v
  := by
  obtain ⟨hrunning, hdone⟩ := h
  constructor
  · apply setForward_or_quiet_of_keeps
  · rintro (⟨d, hd, v, hv, hmode⟩ | hquiet)
    · apply keeps_of_setForward hd hv hmode
    · apply keeps_of_served
      · rw [served, serve_of_not_restarts fun d hd => (hquiet d hd).1, hdone]
      · rw [served_calibrationSeen, hseen, hrunning]
        intro he
        cases he
      · obtain ⟨-, hdata⟩ | ⟨d, hd, v, hv, -⟩ := serve_data (c.sensed s) s.requests
        · exact hdata
        · cases (hquiet d hd).2 v hv

/-- After a start and any run of turns, a calibration that finishes is kept exactly if a
request sets the forward direction and its results survive that, or if none of the
requests that are served in the same turn starts a calibration anew or sets the forward
direction. -/
theorem finished_calibration_kept_iff (s : Startup) (σ : Settings) (run : List Moment)
    (m : Moment) (h : ((begun s σ).after run).Finishes m.toSurroundings) :
  ((begun s σ).after run).Keeps m.toSurroundings ↔
    (∃ d ∈ m.requests, ∃ v, d.request = .setForward v ∧
        ((((begun s σ).after run).sensed m.toSurroundings).inertial.calibration.mode
            ≠ .forward ∨
          givenForward v = (((begun s σ).after run).sensed
            m.toSurroundings).inertial.calibration.data.forward)) ∨
      ∀ d ∈ m.requests,
        ¬ (((begun s σ).after run).sensed m.toSurroundings).Restarts d.request ∧
          ∀ v, d.request ≠ .setForward v
  := keeps_iff_of_finishes (seen_of_begun s σ run) h

/-- A moment at which the sensor is read at rest. -/
def restMoment (requests : List Delivery) : Moment :=
  { Moment.plain 1002 none with
    sample := some ⟨.down, .zero⟩
    requests := requests }

/-- A calibration of a single sample is kept when there are no requests. -/
theorem single_sample_kept :
  ((begun .plain { startSamples := 1 }).after []).Finishes (restMoment []).toSurroundings ∧
    ((begun .plain { startSamples := 1 }).after []).Keeps (restMoment []).toSurroundings
  := by
  have hf : ((begun .plain { startSamples := 1 }).after []).Finishes
      (restMoment []).toSurroundings := by
    decide +kernel
  use hf
  apply (finished_calibration_kept_iff .plain { startSamples := 1 } [] _ hf).mpr
  right
  intro d hd
  cases hd

/-- A request for a calibration of the gyroscope loses the one that has just finished:
its results are not stored. -/
theorem finished_calibration_lost :
  ∃ (s : Startup) (σ : Settings) (run : List Moment) (m : Moment),
    ((begun s σ).after run).Finishes m.toSurroundings ∧
      ¬ ((begun s σ).after run).Keeps m.toSurroundings
  := by
  have hf : ((begun .plain { startSamples := 1 }).after []).Finishes
      (restMoment [⟨⟨0, .calibrate false⟩, none⟩]).toSurroundings := by
    decide +kernel
  have hr : (((begun .plain { startSamples := 1 }).after []).sensed
      (restMoment [⟨⟨0, .calibrate false⟩, none⟩]).toSurroundings).Restarts
        (.calibrate false) := by
    decide +kernel
  refine ⟨_, _, _, _, hf, fun hk => ?_⟩
  obtain ⟨d, hd, v, hv, -⟩ | hq := (keeps_iff_of_finishes (seen_of_begun _ _ _) hf).mp hk
  · obtain rfl := List.mem_singleton.mp hd
    cases hv
  · apply (hq _ (List.mem_singleton_self _)).1 hr

end Control

end ModelCar
