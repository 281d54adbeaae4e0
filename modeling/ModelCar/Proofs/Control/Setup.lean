import ModelCar.Proofs.Control.Storage
import ModelCar.Proofs.Control.Tuning
import ModelCar.Proofs.Number.Single
import ModelCar.Proofs.Stabilization.Course

/-!
# What a tuning sets

A tuning sets the gains of the controller and of the attitude filter, and the filter of
the yaw rate.  A start and a change of the tuning set them all; nothing else touches any
of them.  So they agree with the tuning in use from the start on, with one exception that
the filter makes: a tuning whose cutoff is not below half the sampling rate is in range,
and for it the filter lets its input through.
-/

namespace ModelCar

/-! ### The filter of the yaw rate -/

namespace LowPass

/-- The settings and the coefficients that a filter works with; none if it lets its input
through. -/
def design {α : Type} (f : LowPass α) : Option (α × α × Coefficients α) :=
  f.coefficients.map fun k => (f.cutoff, f.rate, k)

theorem design_step (f : LowPass Float32) (x : Float32) :
  (f.step x).design = f.design
  := by
  unfold step
  split
  · rfl
  · rfl

theorem design_configure (f : LowPass Float32) (cutoff rate : Float32) :
  (f.configure cutoff rate).design =
    if isAdmissible cutoff rate then some (cutoff, rate, .ofTangent (tangent cutoff rate))
    else none
  := by
  unfold configure
  split
  · rfl
  · rfl

end LowPass

/-- For a tuning in range the filter only asks for a cutoff below half the sampling
rate. -/
theorem Tuning.IsClean.isAdmissible_iff {t : Tuning Float32} (h : t.IsClean) :
  LowPass.isAdmissible t.cutoff t.sampleRate ↔ t.cutoff < t.sampleRate * 0.5
  := by
  have hc : t.cutoff.isFinite := h.isFinite _ (by simp [numbers])
  have hr : t.sampleRate.isFinite := h.isFinite _ (by simp [numbers])
  obtain ⟨-, -, -, hlo, -, hpos, -⟩ := h.1
  have hcpos : 0.0 < t.cutoff := by
    have h5 : (0.0 : Float32) < 5.0 := by decide
    rw [single_lt_iff rfl rfl] at h5
    rw [single_le_iff rfl hc] at hlo
    rw [single_lt_iff rfl hc]
    linarith
  unfold LowPass.isAdmissible
  rw [decide_eq_true_iff]
  constructor
  · intro ha
    exact ha.2.2.2.2
  · intro hlt
    exact ⟨hc, hr, hcpos, hpos, hlt⟩

/-! ### The setup -/

/-- A tuning in use, and what it has set. -/
structure Setup where
  tuning : Tuning Float32
  gains : Pid.Gains Float32
  attitudeGain : Float32
  /-- The settings and the coefficients of the filter of the yaw rate. -/
  design : Option (Float32 × Float32 × Coefficients Float32)

/-- The setup that a tuning in range stands for. -/
def Setup.ofTuning (t : Tuning Float32) : Setup where
  tuning := t
  gains := t.gains
  attitudeGain := t.attitudeGain
  design :=
    if t.cutoff < t.sampleRate * 0.5 then
      some (t.cutoff, t.sampleRate, .ofTangent (LowPass.tangent t.cutoff t.sampleRate))
    else none

namespace Inertial

theorem gain_update (i : Inertial) (now : Millis) (reading : Option (Sample Float32)) :
  (i.update now reading).attitude.gain = i.attitude.gain
  := by
  unfold update
  split
  · rfl
  · split
    · rfl
    · simp only [take, Attitude.advance]
      split
      · rfl
      · split
        · rfl
        · rfl

theorem design_update (i : Inertial) (now : Millis) (reading : Option (Sample Float32)) :
  (i.update now reading).lowPass.design = i.lowPass.design
  := by
  unfold update
  split
  · rfl
  · split
    · rfl
    · simp only [take, LowPass.design_step]

end Inertial

namespace Control

variable {c : Control}

/-- The setup of the control loop. -/
def setup (c : Control) : Setup :=
  ⟨c.tuning, c.stabilizer.pid.gains, c.inertial.attitude.gain, c.inertial.lowPass.design⟩

theorem use_setup (c : Control) {t : Tuning Float32} (h : t.IsClean) :
  (c.use t).1.setup = .ofTuning t
  := by
  rw [use_eq, Setup.ofTuning]
  simp only [← h.isAdmissible_iff, ← LowPass.design_configure c.inertial.lowPass]
  rfl

/-! ### Requests -/

/-- What can become of a change of the tuning, its answer, and its effects: it is refused,
or it is used and, if that was wanted, stored or tried to be stored. -/
inductive Retuned (c : Control) (t : Tuning Float32) :
    Bool → Option Fault → Except Tuning.Failure (Tuning Float32) → Control → List Effect →
      Prop where
  | refused {keep : Bool} {fault : Option Fault} (h : ¬ t.clamped.IsValid) :
      Retuned c t keep fault (.error .invalid) c [.note .tuningInvalid]
  | used {fault : Option Fault} (h : t.clamped.IsClean) :
      Retuned c t false fault (.ok t.clamped) (c.use t.clamped).1 (c.use t.clamped).2
  | stored (h : t.clamped.IsClean) :
      Retuned c t true none (.ok t.clamped) (c.use t.clamped).1
        ((c.use t.clamped).2 ++ [.storeTuning t.clamped none, .note .tuningStored])
  | notStored {f : Fault} (h : t.clamped.IsClean) :
      Retuned c t true (some f) (.error (.notStored f.message)) (c.use t.clamped).1
        ((c.use t.clamped).2 ++
          [.storeTuning t.clamped (some f), .note (.tuningNotStored f)])

theorem retune_retuned (c : Control) (t : Tuning Float32) (keep : Bool)
    (fault : Option Fault) :
  Retuned c t keep fault (c.retune t keep fault).1 (c.retune t keep fault).2.1
    (c.retune t keep fault).2.2
  := by
  by_cases hv : t.clamped.IsValid
  · have hc := Tuning.isClean_clamped hv
    simp only [retune, if_pos hv]
    cases keep with
    | false => exact .used hc
    | true =>
        simp only [if_true, List.append_assoc]
        cases fault with
        | none => exact .stored hc
        | some f => exact .notStored hc
  · simp only [retune, if_neg hv]
    exact .refused hv

theorem Response.setup {d : Delivery} {c' : Control} {effects : List Effect}
    (h : Response c d c' effects) (hr : ∀ t keep, d.request ≠ .retune t keep) :
  c'.setup = c.setup
  := by
  cases h with
  | restart => rfl
  | forward => rfl
  | retune u hu =>
      obtain ⟨t, keep, ht⟩ := hu
      cases hr t keep ht
  | stay => rfl

/-! ### The tuning in use -/

/-- The tuning in use is in range, and from the start on it is in effect. -/
structure Settled (c : Control) : Prop where
  isClean : c.tuning.IsClean
  setup_eq : c.started → c.setup = .ofTuning c.tuning

theorem Settled.of_setup {t : Tuning Float32} (ht : t.IsClean) (h : c.setup = .ofTuning t) :
  c.Settled
  := by
  have hc : c.tuning = t := congrArg Setup.tuning h
  constructor
  · rw [hc]
    exact ht
  · intro _
    rw [hc]
    exact h

/-- Only the setup and the start matter. -/
theorem Settled.congr (h : c.Settled) {c' : Control} (hs : c'.setup = c.setup)
    (hc : c'.started = c.started) :
  c'.Settled
  := by
  have ht : c'.tuning = c.tuning := congrArg Setup.tuning hs
  constructor
  · rw [ht]
    exact h.isClean
  · intro hstarted
    rw [ht, hs]
    apply h.setup_eq
    rw [← hc]
    exact hstarted

theorem settled_ofSettings (t : Settings) :
  (ofSettings t).Settled
  := by
  constructor
  · exact Tuning.isClean_standard
  · intro h
    cases h

theorem Settled.retuned (h : c.Settled) {t : Tuning Float32} {keep : Bool}
    {fault : Option Fault} {result : Except Tuning.Failure (Tuning Float32)} {c' : Control}
    {effects : List Effect} (hr : Retuned c t keep fault result c' effects) :
  c'.Settled
  := by
  cases hr with
  | refused => exact h
  | used ht => exact .of_setup ht (use_setup c ht)
  | stored ht => exact .of_setup ht (use_setup c ht)
  | notStored ht => exact .of_setup ht (use_setup c ht)

theorem Settled.response (h : c.Settled) {d : Delivery} {c' : Control}
    {effects : List Effect} (hd : Response c d c' effects)
    (hr : ∀ t keep, d.request ≠ .retune t keep) :
  c'.Settled
  := by
  apply h.congr (hd.setup hr)
  rw [hd.eq_withMotion]
  rfl

theorem Settled.handle (h : c.Settled) (d : Delivery) :
  (c.handle d).1.Settled
  := by
  have hd := handle_response c d
  obtain ⟨⟨ticket, request⟩, fault⟩ := d
  cases request with
  | retune t keep => exact h.retuned (retune_retuned c t keep fault)
  | calibrate full => exact h.response hd (by rintro _ _ ⟨⟩)
  | calibrateForward => exact h.response hd (by rintro _ _ ⟨⟩)
  | setForward v => exact h.response hd (by rintro _ _ ⟨⟩)
  | query => exact h.response hd (by rintro _ _ ⟨⟩)

theorem Settled.serve (h : c.Settled) (ds : List Delivery) :
  (c.serve ds).1.Settled
  := by
  induction ds generalizing c with
  | nil => exact h
  | cons d ds ih =>
      rw [serve_cons]
      apply ih
      apply h.handle

/-! ### A turn -/

theorem sensed_setup (c : Control) (s : Surroundings) :
  (c.sensed s).setup = c.setup
  := by
  show Setup.mk c.tuning c.stabilizer.pid.gains (c.inertial.update s.now s.sample).attitude.gain
    (c.inertial.update s.now s.sample).lowPass.design = c.setup
  rw [Inertial.gain_update, Inertial.design_update]
  rfl

theorem noteCalibration_setup (c : Control) (fault : Option Fault) :
  (c.noteCalibration fault).1.setup = c.setup
  := by
  by_cases h : c.inertial.calibration.status = .done ∧ c.calibrationSeen ≠ .done
  · obtain ⟨notice, hn⟩ := noteCalibration_of_done fault h.1 h.2
    rw [hn]
    rfl
  · rw [noteCalibration_eq, (noteCalibration_of_not_done fault h).1]
    rfl

theorem stabilize_setup (c : Control) (elapsed : Millis) :
  (c.stabilize elapsed).2.setup = c.setup
  := by
  obtain ⟨ht, hg⟩ := c.stabilizer.step_frame c.trusts
    { throttle := c.commanded.throttle
      steering := c.commanded.steering
      yawRate := c.inertial.yawRate
      pitch := c.inertial.attitude.degrees.pitch } elapsed
  unfold Control.setup Control.tuning
  rw [← ht, ← hg]
  rfl

theorem guard_setup (c : Control) (now : Millis) (target : Controls) :
  (c.guard now target).2.1.setup = c.setup
  := by
  rw [guard_eq]
  rfl

theorem drive_setup (c : Control) (now : Millis) (target : Controls) :
  (c.drive now target).1.setup = c.setup
  := by
  rw [drive_eq]
  rfl

theorem diagnose_setup (c : Control) (now : Millis) (busy : UInt64) :
  (c.diagnose now busy).1.setup = c.setup
  := by
  rw [diagnose_eq]
  rfl

/-- The rest of a turn after the requests leaves the setup as it is. -/
theorem finish_setup (c : Control) (s : Surroundings) (elapsed : Millis) :
  (c.finish s elapsed).1.setup = c.setup
  := by
  simp only [finish]
  rw [diagnose_setup]
  show (Control.drive _ _ _).1.setup = _
  rw [drive_setup, guard_setup, stabilize_setup]
  exact noteCalibration_setup c s.fault

theorem finish_started (c : Control) (s : Surroundings) (elapsed : Millis) :
  (c.finish s elapsed).1.started = c.started
  := by
  simp only [finish]
  rw [diagnose_eq, report_eq, drive_eq, guard_eq]
  show (c.noteCalibration s.fault).1.started = _
  rw [noteCalibration_eq]

theorem Settled.finish (h : c.Settled) (s : Surroundings) (elapsed : Millis) :
  (c.finish s elapsed).1.Settled
  := h.congr (finish_setup c s elapsed) (finish_started c s elapsed)

theorem Settled.turn (h : c.Settled) (s : Surroundings) :
  (c.turn s).1.Settled
  := by
  have hsensed : (c.sensed s).Settled := h.congr (sensed_setup c s) rfl
  have hserved : (c.served s).Settled := hsensed.serve s.requests
  rw [← finish_served]
  apply hserved.finish

/-! ### A start -/

theorem isClean_startTuning (stored : Option (Tuning Float32)) :
  (startTuning stored).1.IsClean
  := by
  cases stored with
  | none => exact Tuning.isClean_standard
  | some t =>
      simp only [startTuning, Option.map_some]
      split
      · exact Tuning.isClean_clamped ‹_›
      · exact Tuning.isClean_standard

theorem launch_setup (c : Control) (s : Startup) :
  (c.launch s).1.setup = .ofTuning (startTuning s.tuning).1
  := by
  have hc : (c.calibrating s).setup = (c.tuned s).setup := by
    obtain ⟨-, target, h⟩ | ⟨-, h⟩ := startCalibration_cases (c.tuned s)
    · rw [calibrating, h]
      rfl
    · rw [calibrating, h]
  rw [launch_frame]
  show (c.calibrating s).setup = _
  rw [hc, tuned, use_setup _ (isClean_startTuning _)]

theorem Settled.start (h : c.Settled) (s : Startup) :
  (c.start s).2.1.Settled
  := by
  obtain ⟨-, hl⟩ | ⟨hc, -⟩ := start_cases c s
  · rw [hl]
    exact .of_setup (isClean_startTuning _) (launch_setup c s)
  · rw [hc]
    exact h

end Control

/-! ### A run -/

namespace Car

variable {car : Car}

theorem settled_next (op : Operation) (h : car.control.Settled) :
  (car.next op).control.Settled
  := by
  cases op with
  | renew t => exact Control.settled_ofSettings t
  | start s => exact h.start _
  | turn s => exact h.turn s
  | calibrateForward =>
      exact h.response (Control.calibrateForward_response _ 0 none) (by rintro _ _ ⟨⟩)
  | setForward v fault =>
      exact h.response (Control.setForward_response _ v 0 fault) (by rintro _ _ ⟨⟩)
  | retune t keep fault => exact h.retuned (Control.retune_retuned _ t keep fault)

/-- In every state that can be reached the tuning in use is in range and may be used, and
after a start it is in effect. -/
theorem IsReachable.settled (h : car.IsReachable) :
  car.control.Settled
  := h.of_next (P := fun car => car.control.Settled)
    (fun t _ => Control.settled_ofSettings t) fun _ op => settled_next op

/-- In every state that can be reached with a start, the attitude filter and the
controller have the gains of the tuning in use, and the filter of the yaw rate works with
its cutoff and its sampling rate if the cutoff is below half the rate; otherwise it lets
its input through. -/
theorem tuning_in_effect (h : car.IsReachable) (hs : car.control.started) :
  car.control.inertial.attitude.gain = car.control.tuning.attitudeGain ∧
    car.control.stabilizer.pid.gains = car.control.tuning.gains ∧
    car.control.inertial.lowPass.design =
      if car.control.tuning.cutoff < car.control.tuning.sampleRate * 0.5 then
        some (car.control.tuning.cutoff, car.control.tuning.sampleRate,
          .ofTangent (LowPass.tangent car.control.tuning.cutoff
            car.control.tuning.sampleRate))
      else none
  := by
  have hsetup := h.settled.setup_eq hs
  exact ⟨congrArg Setup.attitudeGain hsetup, congrArg Setup.gains hsetup,
    congrArg Setup.design hsetup⟩

/-- After a plain start the filter works with the standard settings. -/
theorem standard_in_effect :
  ((⟨.ofSettings {}, none⟩ : Car).after [.start .plain]).control.started ∧
    ((⟨.ofSettings {}, none⟩ : Car).after [.start .plain]).control.inertial.lowPass.design
      = some (30.0, 500.0, .ofTangent (LowPass.tangent 30.0 500.0))
  := by
  have hs : ((⟨.ofSettings {}, none⟩ : Car).after [.start .plain]).control.started := by
    decide +kernel
  have ht : ((⟨.ofSettings {}, none⟩ : Car).after [.start .plain]).control.tuning
      = .standard := by decide +kernel
  obtain ⟨-, -, h⟩ := tuning_in_effect ⟨{}, none, [.start .plain], rfl⟩ hs
  use hs
  rw [h, ht]
  exact if_pos (by decide +kernel)

/-- The standard tuning with a cutoff that is above half the sampling rate. -/
def aliasing : Tuning Float32 :=
  { Tuning.standard with cutoff := 60.0, sampleRate := 100.0 }

/-- Such a tuning is accepted after a start, and then it is the one in use, but no filter
works with its settings. -/
theorem aliasing_not_filtered :
  (((⟨.ofSettings {}, none⟩ : Car).after [.start .plain]).control.retune aliasing false
      none).1 = .ok aliasing ∧
    ((⟨.ofSettings {}, none⟩ : Car).after
      [.start .plain, .retune aliasing false none]).control.started ∧
    ((⟨.ofSettings {}, none⟩ : Car).after
      [.start .plain, .retune aliasing false none]).control.tuning = aliasing ∧
    ((⟨.ofSettings {}, none⟩ : Car).after
      [.start .plain, .retune aliasing false none]).control.inertial.lowPass.isConfigured
        = false
  := by decide +kernel

end Car

end ModelCar
