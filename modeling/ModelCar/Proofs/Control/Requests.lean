import Mathlib.Tactic.Use
import ModelCar.Control.Basic

/-!
# What requests change

A request starts a calibration anew, sets the forward direction, changes the tuning, or
leaves everything as it is.  In every case it changes at most the inertial unit and the
stabilizer, and not whether there is a motion sensor.  It moves nothing, and only setting
the forward direction stores calibration data.
-/

namespace ModelCar

/-! ### Kinds of effects -/

namespace Effect

/-- An effect that moves the actuators, or tells that the failsafe does. -/
def Moves : Effect → Prop
  | .drive _ _ => True
  | .neutral => True
  | .failsafeChanged _ => True
  | _ => False

/-- An effect that stores calibration data, or tries to. -/
def StoresCalibration : Effect → Prop
  | .storeCalibration _ _ => True
  | _ => False

/-- An effect that neither moves anything nor stores calibration data. -/
def Plain (e : Effect) : Prop :=
  ¬ e.Moves ∧ ¬ e.StoresCalibration

theorem plain_note (n : Notice) :
  (Effect.note n).Plain
  := ⟨id, id⟩

theorem plain_answer (ticket : Nat) (a : Answer) :
  (Effect.answer ticket a).Plain
  := ⟨id, id⟩

theorem plain_storeTuning (t : Tuning Float32) (fault : Option Fault) :
  (Effect.storeTuning t fault).Plain
  := ⟨id, id⟩

end Effect

/-- Effects that neither move anything nor store calibration data. -/
def Plain (effects : List Effect) : Prop :=
  ∀ e ∈ effects, e.Plain

theorem plain_nil :
  Plain []
  := by
  intro e he
  cases he

theorem Plain.cons {e : Effect} {effects : List Effect} (he : e.Plain)
    (h : Plain effects) :
  Plain (e :: effects)
  := List.forall_mem_cons.mpr ⟨he, h⟩

theorem Plain.append {effects more : List Effect} (h : Plain effects) (hm : Plain more) :
  Plain (effects ++ more)
  := List.forall_mem_append.mpr ⟨h, hm⟩

theorem Plain.not_mem_store {effects : List Effect} (h : Plain effects)
    (data : CalibrationData Float32) (fault : Option Fault) :
  .storeCalibration data fault ∉ effects
  := fun he => (h _ he).2 trivial

/-! ### The forward direction -/

/-- The direction that counts as forward when it is set by hand. -/
def givenForward (v : Vector3 Float32) : Vector3 Float32 :=
  .directionOr Float .ahead (if v.isFinite then v else .ahead)

/-- The same data with the forward direction set by hand. -/
def CalibrationData.withForward (data : CalibrationData Float32) (v : Vector3 Float32) :
    CalibrationData Float32 :=
  { data with forward := givenForward v }

namespace Control

variable {c : Control}

/-! ### One request -/

/-- The same control loop with another inertial unit and another stabilizer. -/
def withMotion (c : Control) (i : Inertial) (s : Stabilizer Float32) : Control :=
  { c with inertial := i, stabilizer := s }

/-- The control loop with the forward direction set by hand. -/
def forwarded (c : Control) (v : Vector3 Float32) : Control :=
  { c with inertial :=
      (c.withCalibration (c.inertial.calibration.setForward v)).inertial.align }

/-- A request starts a calibration anew. -/
def Restarts (c : Control) : Request → Prop
  | .calibrate _ => c.inertial.enabled
  | .calibrateForward =>
    c.inertial.calibration.status ≠ .collecting ∧ c.inertial.calibration.hasGravity
  | _ => False

instance (c : Control) : (r : Request) → Decidable (c.Restarts r)
  | .calibrate _ => inferInstanceAs (Decidable (_ = true))
  | .calibrateForward => inferInstanceAs (Decidable (_ ∧ _))
  | .setForward _ => inferInstanceAs (Decidable False)
  | .retune _ _ => inferInstanceAs (Decidable False)
  | .query => inferInstanceAs (Decidable False)

/-- What can become of the control loop under a request, and with which effects. -/
inductive Response (c : Control) (d : Delivery) : Control → List Effect → Prop where
  | restart (mode : Calibration.Mode) (target : Nat) {effects : List Effect}
      (h : c.Restarts d.request) (hp : Plain effects) :
      Response c d (c.withCalibration (c.inertial.calibration.collect mode target)) effects
  | forward (v : Vector3 Float32) {effects : List Effect}
      (h : d.request = .setForward v) (hp : Plain effects) :
      Response c d (c.forwarded v)
        (.storeCalibration (c.forwarded v).inertial.calibration.data d.fault :: effects)
  | retune (t : Tuning Float32) {effects : List Effect}
      (h : ∃ t keep, d.request = .retune t keep) (hp : Plain effects) :
      Response c d (c.withMotion (c.inertial.retune t) (c.stabilizer.retune t)) effects
  | stay {effects : List Effect} (hr : ¬ c.Restarts d.request)
      (hf : ∀ v, d.request ≠ .setForward v) (hp : Plain effects) :
      Response c d c effects

theorem use_eq (c : Control) (t : Tuning Float32) :
  (c.use t).1 = c.withMotion (c.inertial.retune t) (c.stabilizer.retune t)
  := rfl

theorem plain_use (c : Control) (t : Tuning Float32) :
  Plain (c.use t).2
  := by
  simp only [use]
  split
  · apply plain_nil
  · apply Plain.cons (Effect.plain_note _) plain_nil

theorem plain_retune (c : Control) (t : Tuning Float32) (keep : Bool)
    (fault : Option Fault) :
  Plain (c.retune t keep fault).2.2
  := by
  simp only [retune]
  split
  · split
    · cases fault with
      | none =>
          apply ((plain_use c _).append _).append
          · apply Plain.cons (Effect.plain_note _) plain_nil
          · apply Plain.cons (Effect.plain_storeTuning _ _) plain_nil
      | some f =>
          apply ((plain_use c _).append _).append
          · apply Plain.cons (Effect.plain_note _) plain_nil
          · apply Plain.cons (Effect.plain_storeTuning _ _) plain_nil
    · apply plain_use
  · apply Plain.cons (Effect.plain_note _) plain_nil

theorem retune_control (c : Control) (t : Tuning Float32) (keep : Bool)
    (fault : Option Fault) :
  (c.retune t keep fault).2.1 = c ∨
    ∃ u, (c.retune t keep fault).2.1
      = c.withMotion (c.inertial.retune u) (c.stabilizer.retune u)
  := by
  by_cases hv : t.clamped.IsValid
  · right
    use t.clamped
    simp only [retune, if_pos hv]
    split
    · cases fault <;> rfl
    · rfl
  · left
    simp only [retune, if_neg hv]

/-- Further plain effects make no difference. -/
theorem Response.append {c' : Control} {d : Delivery} {effects more : List Effect}
    (h : Response c d c' effects) (hm : Plain more) :
  Response c d c' (effects ++ more)
  := by
  cases h with
  | restart mode target hr hp => exact .restart mode target hr (hp.append hm)
  | forward v hv hp => exact .forward v hv (hp.append hm)
  | retune t ht hp => exact .retune t ht (hp.append hm)
  | stay hr hf hp => exact .stay hr hf (hp.append hm)

theorem calibrate_response (c : Control) (full : Bool) (ticket : Nat)
    (fault : Option Fault) :
  Response c ⟨⟨ticket, .calibrate full⟩, fault⟩ (c.calibrate full).1 (c.calibrate full).2
  := by
  by_cases he : c.inertial.enabled
  · simp only [calibrate, if_pos he]
    cases full with
    | true => exact .restart _ _ he (plain_nil.cons (Effect.plain_note _))
    | false => exact .restart _ _ he (plain_nil.cons (Effect.plain_note _))
  · simp only [calibrate, if_neg he]
    refine .stay he ?_ (plain_nil.cons (Effect.plain_note _))
    intro v hv
    cases hv

theorem calibrateForward_response (c : Control) (ticket : Nat) (fault : Option Fault) :
  Response c ⟨⟨ticket, .calibrateForward⟩, fault⟩ c.calibrateForward.2.1
    c.calibrateForward.2.2
  := by
  by_cases hs : c.inertial.calibration.status = .collecting
  · simp only [calibrateForward, if_pos hs]
    refine .stay (fun hr => hr.1 hs) ?_ plain_nil
    intro v hv
    cases hv
  · simp only [calibrateForward, if_neg hs, Calibration.start]
    by_cases hg : c.inertial.calibration.hasGravity
    · simp only [if_pos hg]
      exact .restart _ _ ⟨hs, hg⟩ (plain_nil.cons (Effect.plain_note _))
    · simp only [if_neg hg]
      refine .stay (fun hr => hg hr.2) ?_ (plain_nil.cons (Effect.plain_note _))
      intro v hv
      cases hv

theorem setForward_response (c : Control) (v : Vector3 Float32) (ticket : Nat)
    (fault : Option Fault) :
  Response c ⟨⟨ticket, .setForward v⟩, fault⟩ (c.setForward v fault).2.1
    (c.setForward v fault).2.2
  := .forward v rfl (plain_nil.cons (Effect.plain_note _))

theorem retune_response (c : Control) (t : Tuning Float32) (keep : Bool) (ticket : Nat)
    (fault : Option Fault) :
  Response c ⟨⟨ticket, .retune t keep⟩, fault⟩ (c.retune t keep fault).2.1
    (c.retune t keep fault).2.2
  := by
  have hp := plain_retune c t keep fault
  obtain h | ⟨u, h⟩ := retune_control c t keep fault
  · rw [h]
    refine .stay id ?_ hp
    intro v hv
    cases hv
  · rw [h]
    exact .retune u ⟨t, keep, rfl⟩ hp

/-- Every request has one of these outcomes, and then its answer is given. -/
theorem handle_response (c : Control) (d : Delivery) :
  Response c d (c.handle d).1 (c.handle d).2
  := by
  obtain ⟨⟨ticket, request⟩, fault⟩ := d
  have ha : ∀ a, Plain [.answer ticket a] :=
    fun a => plain_nil.cons (Effect.plain_answer _ a)
  cases request with
  | calibrate full => exact calibrate_response c full ticket fault
  | calibrateForward => exact (calibrateForward_response c ticket fault).append (ha _)
  | setForward v => exact (setForward_response c v ticket fault).append (ha _)
  | retune t keep => exact (retune_response c t keep ticket fault).append (ha _)
  | query =>
      refine .stay id ?_ (ha _)
      intro v hv
      cases hv

theorem forwarded_data (c : Control) (v : Vector3 Float32) :
  (c.forwarded v).inertial.calibration.data
    = c.inertial.calibration.data.withForward v
  := rfl

theorem Restarts.ne_setForward {r : Request} (h : c.Restarts r) (v : Vector3 Float32) :
  r ≠ .setForward v
  := by
  rintro rfl
  exact h

namespace Response

variable {c' : Control} {d : Delivery} {effects : List Effect}

theorem eq_withMotion (h : Response c d c' effects) :
  c' = c.withMotion c'.inertial c'.stabilizer
  := by
  cases h with
  | restart => rfl
  | forward => rfl
  | retune => rfl
  | stay => rfl

theorem enabled (h : Response c d c' effects) :
  c'.inertial.enabled = c.inertial.enabled
  := by
  cases h with
  | restart => rfl
  | forward => rfl
  | retune => rfl
  | stay => rfl

theorem still (h : Response c d c' effects) :
  ∀ e ∈ effects, ¬ e.Moves
  := by
  intro e he
  cases h with
  | restart _ _ _ hp => exact (hp e he).1
  | forward _ _ hp =>
      obtain rfl | he := List.mem_cons.mp he
      · exact id
      · exact (hp e he).1
  | retune _ _ hp => exact (hp e he).1
  | stay _ _ hp => exact (hp e he).1

/-- Only setting the forward direction changes the data, and only it stores them. -/
theorem forward_or_plain (h : Response c d c' effects) :
  (∃ v more, d.request = .setForward v ∧ c' = c.forwarded v ∧ Plain more ∧
      effects = .storeCalibration (c.forwarded v).inertial.calibration.data d.fault :: more) ∨
    (∀ v, d.request ≠ .setForward v) ∧
      c'.inertial.calibration.data = c.inertial.calibration.data ∧ Plain effects
  := by
  cases h with
  | restart mode target hr hp =>
      right
      exact ⟨hr.ne_setForward, rfl, hp⟩
  | forward v hv hp =>
      left
      exact ⟨v, _, hv, rfl, hp, rfl⟩
  | retune t ht hp =>
      obtain ⟨u, keep, ht⟩ := ht
      right
      refine ⟨fun v hv => ?_, rfl, hp⟩
      rw [ht] at hv
      cases hv
  | stay hr hf hp =>
      right
      exact ⟨hf, rfl, hp⟩

/-- The status of a calibration changes only when it is started anew. -/
theorem status_of_restarts (h : Response c d c' effects) (hr : c.Restarts d.request) :
  c'.inertial.calibration.status = .collecting
  := by
  cases h with
  | restart mode target _ hp => rfl
  | forward v hv hp => cases hr.ne_setForward v hv
  | retune t ht hp =>
      obtain ⟨u, keep, ht⟩ := ht
      rw [ht] at hr
      cases hr
  | stay hn hf hp => contradiction

theorem status_of_not_restarts (h : Response c d c' effects)
    (hr : ¬ c.Restarts d.request) :
  c'.inertial.calibration.status = c.inertial.calibration.status
  := by
  cases h with
  | restart mode target _ hp => contradiction
  | forward v hv hp => rfl
  | retune t ht hp => rfl
  | stay hn hf hp => rfl

/-- Other requests do not change what starts a calibration anew. -/
theorem restarts_iff (h : Response c d c' effects) (hr : ¬ c.Restarts d.request)
    (r : Request) :
  c'.Restarts r ↔ c.Restarts r
  := by
  cases h with
  | restart mode target _ hp => contradiction
  | forward v hv hp => cases r <;> rfl
  | retune t ht hp => cases r <;> rfl
  | stay hn hf hp => rfl

theorem mem_store_iff (h : Response c d c' effects) {data : CalibrationData Float32}
    {fault : Option Fault} :
  .storeCalibration data fault ∈ effects ↔
    ∃ v, d.request = .setForward v ∧ d.fault = fault ∧
      data = c.inertial.calibration.data.withForward v
  := by
  obtain ⟨v, more, hv, -, hp, rfl⟩ | ⟨hf, -, hp⟩ := h.forward_or_plain
  · rw [List.mem_cons, or_iff_left (hp.not_mem_store data fault), forwarded_data, hv]
    constructor
    · intro he
      cases he
      use v
    · intro ⟨u, hu, hf, hd⟩
      cases hu
      rw [hf, hd]
  · constructor
    · intro hm
      cases hp.not_mem_store data fault hm
    · intro ⟨v, hv, _⟩
      cases hf v hv

end Response

/-! ### A list of requests -/

theorem serve_cons (c : Control) (d : Delivery) (ds : List Delivery) :
  c.serve (d :: ds) =
    (((c.handle d).1.serve ds).1, (c.handle d).2 ++ ((c.handle d).1.serve ds).2)
  := rfl

/-- Serving requests changes only the inertial unit and the stabilizer. -/
theorem serve_eq (c : Control) (ds : List Delivery) :
  (c.serve ds).1 = c.withMotion (c.serve ds).1.inertial (c.serve ds).1.stabilizer
  := by
  induction ds generalizing c with
  | nil => rfl
  | cons d ds ih =>
      rw [serve_cons, ih, (handle_response c d).eq_withMotion]
      rfl

/-- Serving requests moves nothing. -/
theorem serve_still (c : Control) (ds : List Delivery) :
  ∀ e ∈ (c.serve ds).2, ¬ e.Moves
  := by
  induction ds generalizing c with
  | nil =>
      intro e he
      cases he
  | cons d ds ih =>
      intro e he
      rw [serve_cons] at he
      obtain he | he := List.mem_append.mp he
      · apply (handle_response c d).still e he
      · apply ih _ e he

end Control

end ModelCar
