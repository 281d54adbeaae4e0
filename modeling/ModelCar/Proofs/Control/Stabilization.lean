import ModelCar.Proofs.Control.Start
import ModelCar.Proofs.Control.Turn
import ModelCar.Proofs.Stabilization.Course
import ModelCar.Proofs.Stabilization.Tuning

/-!
# The stabilizer in the control loop

The control loop asks its stabilizer to use the tunings that are requested, and the stored
one at its start.  Every turn it lets the stabilizer take one step, with the command that
has been chosen.  Nothing else touches the stabilizer.
-/

namespace ModelCar

/-- The tuning that a request asks for. -/
def Request.tuning? : Request → Option (Tuning Float32)
  | .retune t _ => some t
  | _ => none

/-- The tunings that are asked for in some requests. -/
def askedTunings (requests : List Delivery) : List (Tuning Float32) :=
  requests.filterMap fun d => d.request.tuning?

theorem askedTunings_cons (d : Delivery) (ds : List Delivery) :
  askedTunings (d :: ds) = d.request.tuning?.toList ++ askedTunings ds
  := by
  cases hd : d.request.tuning? with
  | none => exact List.filterMap_cons_none hd
  | some t => exact List.filterMap_cons_some hd

namespace Control

variable (c : Control) (s : Surroundings)

/-! ### Requests -/

theorem retune_stabilizer (t : Tuning Float32) (keep : Bool) (fault : Option Fault) :
  (c.retune t keep fault).2.1.stabilizer = c.stabilizer.ask t
  := by
  by_cases hv : t.clamped.IsValid
  · simp only [retune, if_pos hv, Stabilizer.ask]
    split
    · cases fault <;> rfl
    · rfl
  · simp only [retune, if_neg hv, Stabilizer.ask]

/-- Other requests than those for a tuning do not touch the stabilizer. -/
theorem Response.stabilizer {c c' : Control} {d : Delivery} {effects : List Effect}
    (h : Response c d c' effects) (hd : d.request.tuning? = none) :
  c'.stabilizer = c.stabilizer
  := by
  cases h with
  | restart => rfl
  | forward => rfl
  | retune t ht =>
      obtain ⟨t, keep, ht⟩ := ht
      rw [ht] at hd
      cases hd
  | stay => rfl

theorem handle_stabilizer (d : Delivery) :
  (c.handle d).1.stabilizer = d.request.tuning?.elim c.stabilizer c.stabilizer.ask
  := by
  cases hd : d.request.tuning? with
  | none => exact (handle_response c d).stabilizer hd
  | some t =>
      obtain ⟨⟨ticket, request⟩, fault⟩ := d
      cases request with
      | retune u keep =>
          cases hd
          exact c.retune_stabilizer t keep fault
      | _ => cases hd

theorem serve_stabilizer (ds : List Delivery) :
  (c.serve ds).1.stabilizer = c.stabilizer.askAll (askedTunings ds)
  := by
  induction ds generalizing c with
  | nil => rfl
  | cons d ds ih =>
      rw [serve_cons, ih, handle_stabilizer, askedTunings_cons]
      cases d.request.tuning? with
      | none => rfl
      | some t => rfl

/-! ### A turn -/

theorem noted_stabilizer :
  (c.noted s).stabilizer = c.stabilizer.askAll (askedTunings s.requests)
  := by
  rw [noted, noteCalibration_eq]
  exact serve_stabilizer _ _

/-- The command, and what the sensor says about the car. -/
def input : Stabilizer.Input Float32 where
  throttle := c.commanded.throttle
  steering := c.commanded.steering
  yawRate := c.inertial.yawRate
  pitch := c.inertial.attitude.degrees.pitch

/-- A turn of the stabilizer in a turn of the control loop. -/
def stabilizerTurn : (Float32 × Float32) × Stabilizer Float32 :=
  c.stabilizer.turn (askedTunings s.requests) (c.noted s).trusts (c.noted s).choose.input
    (c.elapsed s.now)

/-- The target of a turn is what the stabilizer makes of the command. -/
theorem target_eq :
  c.target s = .clamped (c.stabilizerTurn s).1.1 (c.stabilizerTurn s).1.2
  := by
  rw [stabilizerTurn, Stabilizer.turn, ← noted_stabilizer]
  rfl

theorem stabilized_stabilizer :
  (c.stabilized s).stabilizer = (c.stabilizerTurn s).2
  := by
  rw [stabilizerTurn, Stabilizer.turn, ← noted_stabilizer]
  rfl

/-- After that, a turn leaves the stabilizer as it is. -/
theorem turn_stabilizer :
  (c.turn s).1.stabilizer = (c.stabilizerTurn s).2
  := by
  rw [← stabilized_stabilizer, turn_eq, diagnose_eq, reported, report_eq, driven, drive_eq,
    guarded, guard_eq]

/-! ### A start -/

theorem launch_stabilizer (s : Startup) :
  (c.launch s).1.stabilizer = c.stabilizer.retune (startTuning s.tuning).1
  := by
  have ht : (c.tuned s).stabilizer = c.stabilizer.retune (startTuning s.tuning).1 := by
    rw [tuned, use_eq, loaded, startInertial_eq, received, startRadio_eq]
    rfl
  rw [launch_frame, ← ht]
  obtain ⟨-, target, h⟩ | ⟨-, h⟩ := startCalibration_cases (c.tuned s)
  · rw [calibrating, h]
    rfl
  · rw [calibrating, h]

/-- A start asks for a tuning that may be used. -/
theorem exists_ask_startTuning (stored : Option (Tuning Float32)) :
  ∃ t, ∀ s : Stabilizer Float32, s.retune (startTuning stored).1 = s.ask t
  := by
  obtain ⟨hv, hc⟩ := Tuning.isClean_standard
  have hstandard (s : Stabilizer Float32) : s.retune .standard = s.ask .standard := by
    rw [Stabilizer.ask, hc, if_pos hv]
  cases stored with
  | none => exact ⟨.standard, hstandard⟩
  | some t =>
      by_cases hv : t.clamped.IsValid
      · use t
        intro s
        simp only [startTuning, Option.map_some, if_pos hv, Stabilizer.ask]
      · use .standard
        intro s
        simp only [startTuning, Option.map_some, if_neg hv]
        exact hstandard s

end Control

end ModelCar
