import ModelCar.Motion.Attitude
import ModelCar.Proofs.Motion.Rotation
import ModelCar.Proofs.Number.Single

/-!
# The attitude filter over whole runs

Every orientation that the filter takes over has been normalized, and so it is finite,
whatever the filter is fed with.  In exact arithmetic it is of norm one, and so is the
orientation of the car, since the frame of the car is a rotation about the third axis to the
forward direction that was set last: `unit_over_runs`.
-/

namespace ModelCar

namespace Quaternion

theorem isFinite_of_normalized? {α : Type} [Scalar α] {q r : Quaternion α}
    (h : q.normalized? = some r) :
  r.isFinite
  := by
  simp only [normalized?] at h
  split at h
  · cases h
  · split at h
    · rename_i hfinite
      cases h
      exact hfinite
    · cases h

/-- What is finite has no component that is not a number, and no infinite one. -/
theorem forall_of_isFinite {q : Quaternion Float32} (h : q.isFinite) :
  ∀ x ∈ [q.w, q.x, q.y, q.z], ¬ x.isNaN ∧ ¬ x.isInf
  := by
  simp only [isFinite, Bool.and_eq_true] at h
  obtain ⟨⟨⟨hw, hx⟩, hy⟩, hz⟩ := h
  simp only [List.forall_mem_cons]
  exact ⟨isFinite_iff.mp hw, isFinite_iff.mp hx, isFinite_iff.mp hy, isFinite_iff.mp hz,
    List.forall_mem_nil _⟩

end Quaternion

namespace Attitude

/-! ### Runs -/

/-- Something that is done with an attitude filter. -/
inductive Operation (α : Type) where
  | advance (sample : Sample α) (seconds : α)
  | setGain (gain : α)
  | setForward (forward : Option (Vector3 α))
  | reset

/-- The forward direction that an operation sets or forgets. -/
def Operation.forward? {α : Type} : Operation α → Option (Option (Vector3 α))
  | .setForward forward => some forward
  | _ => none

/-- The forward direction after a run. -/
def lastForward {α : Type} (run : List (Operation α)) : Option (Vector3 α) :=
  (run.filterMap Operation.forward?).getLast?.join

section
variable {α : Type} [Scalar α]

/-- The filter after an operation. -/
def perform (a : Attitude α) : Operation α → Attitude α
  | .advance sample seconds => a.advance sample seconds
  | .setGain gain => { a with gain }
  | .setForward forward => a.setForward forward
  | .reset => a.reset

/-- The filter after a run of operations. -/
def after (a : Attitude α) (run : List (Operation α)) : Attitude α :=
  run.foldl perform a

theorem after_concat (a : Attitude α) (run : List (Operation α)) (op : Operation α) :
  a.after (run ++ [op]) = (a.after run).perform op
  := List.foldl_append

theorem advance_frame (a : Attitude α) (sample : Sample α) (seconds : α) :
  (a.advance sample seconds).frame = a.frame
  := by
  rw [advance]
  split
  · rfl
  · split
    · rfl
    · rfl

theorem perform_frame (a : Attitude α) (op : Operation α) :
  (a.perform op).frame = (op.forward?.map (·.bind frameOf)).getD a.frame
  := by
  cases op with
  | advance sample seconds => exact advance_frame a sample seconds
  | setGain gain => rfl
  | setForward forward => rfl
  | reset => rfl

/-- The frame is that of the forward direction that was set last. -/
theorem after_frame {a : Attitude α} (ha : a.frame = none) (run : List (Operation α)) :
  (a.after run).frame = (lastForward run).bind frameOf
  := by
  induction run using List.reverseRecOn with
  | nil => exact ha
  | append_singleton run op ih =>
      rw [after_concat, perform_frame, ih, lastForward, lastForward, List.filterMap_append]
      cases h : op.forward? with
      | none => simp [h]
      | some forward => simp [h]

/-- An orientation that a sample leads to has been normalized. -/
theorem advance_rotation (a : Attitude α) (sample : Sample α) (seconds : α) :
  (a.advance sample seconds).rotation = a.rotation ∨
    ∃ q : Quaternion α, q.normalized? = some (a.advance sample seconds).rotation
  := by
  rw [advance]
  split
  · exact .inl rfl
  · split
    · rename_i h
      exact .inr ⟨_, h⟩
    · exact .inl rfl

/-- What holds for the identity and for everything that is normalized holds for the
orientation at all times. -/
theorem after_rotation {P : Quaternion α → Prop} {a : Attitude α} (ha : P a.rotation)
    (hidentity : P .identity) (hnormalized : ∀ q r : Quaternion α, q.normalized? = some r → P r)
    (run : List (Operation α)) :
  P (a.after run).rotation
  := by
  induction run using List.reverseRecOn with
  | nil => exact ha
  | append_singleton run op ih =>
      rw [after_concat]
      cases op with
      | advance sample seconds =>
          obtain h | ⟨q, h⟩ := advance_rotation (a.after run) sample seconds
          · rw [perform, h]
            exact ih
          · exact hnormalized q _ h
      | setGain gain => exact ih
      | setForward forward => exact ih
      | reset => exact hidentity

end

/-! ### The frame of the car -/

/-- The rotation about the third axis to a heading. -/
def headingMatrix (x y : ℝ) : Matrix (Fin 3) (Fin 3) ℝ :=
  !![x, -y, 0; y, x, 0; 0, 0, 1]

theorem headingMatrix_mem {x y : ℝ} (h : x * x + y * y = 1) :
  headingMatrix x y ∈ Matrix.specialOrthogonalGroup (Fin 3) ℝ
  := by
  apply Matrix.mem_specialOrthogonalGroup_iff.mpr
  constructor
  · apply (Matrix.mem_orthogonalGroup_iff (Fin 3) ℝ).mpr
    ext i j
    fin_cases i, j <;>
      simp [headingMatrix, Matrix.mul_apply, Fin.sum_univ_three, h, mul_comm y x,
        add_comm (y * y)]
  · rw [Matrix.det_fin_three]
    simp [headingMatrix, h]

/-- The square of the horizontal part of a direction. -/
def headingSize (v : Vector3 ℝ) : ℝ :=
  v.x * v.x + v.y * v.y

/-- The horizontal direction of length one of a direction. -/
noncomputable def heading (v : Vector3 ℝ) : Vector3 ℝ :=
  ⟨v.x / √(headingSize v), v.y / √(headingSize v), 0⟩

theorem heading_unit {v : Vector3 ℝ} (h : 0 < headingSize v) :
  (heading v).x * (heading v).x + (heading v).y * (heading v).y = 1
  := by
  rw [heading, div_mul_div_comm, div_mul_div_comm, ← add_div, Real.mul_self_sqrt h.le]
  exact div_self h.ne'

/-- With a heading, the axes of the frame are the columns of the rotation to it. -/
theorem frameOf_of_le {v : Vector3 ℝ} (h : 1e-12 ≤ headingSize v) :
  ∃ q, @frameOf ℝ realScalar v = some q ∧ q.Turns (headingMatrix (heading v).x (heading v).y)
  := by
  let := realScalar
  let m := headingMatrix (heading v).x (heading v).y
  have hpos : 0 < headingSize v := lt_of_lt_of_le (by norm_num) h
  have hturns := Quaternion.turns_ofAxes (headingMatrix_mem (heading_unit hpos))
  have hzero : (0.0 : ℝ) = 0 := by norm_num
  have hone : (1.0 : ℝ) = 1 := by norm_num
  have hfirst : Quaternion.column m 0 = ⟨(heading v).x, (heading v).y, 0.0⟩ := by
    rw [hzero]
    rfl
  have hsecond : Quaternion.column m 1 = ⟨-(heading v).y, (heading v).x, 0.0⟩ := by
    rw [hzero]
    rfl
  have hthird : Quaternion.column m 2 = ⟨0.0, 0.0, 1.0⟩ := by
    rw [hzero, hone]
    rfl
  have hsize : ¬ (¬ Scalar.isFinite (headingSize v) ∨ headingSize v < 1e-12) := by
    rintro (hfinite | hlt)
    · exact hfinite rfl
    · exact absurd hlt (not_lt.mpr h)
  refine ⟨_, ?_, hturns⟩
  rw [← Quaternion.normalized?_of_norm_eq_one hturns.norm_eq_one, hfirst, hsecond, hthird]
  exact if_neg hsize

/-- The frame of a car that points along a heading: none without a horizontal direction of
usable size, and otherwise a rotation of the first axis to the heading about the third one. -/
inductive FrameOf : Option (Vector3 ℝ) → Option (Quaternion ℝ) → Prop where
  | unknown : FrameOf none none
  | vertical {v : Vector3 ℝ} (hsize : headingSize v < 1e-12) : FrameOf (some v) none
  | along {v : Vector3 ℝ} {q : Quaternion ℝ} (hsize : 1e-12 ≤ headingSize v)
      (hnorm : ‖q.toHamilton‖ = 1) (hfirst : q.Rotates ⟨1, 0, 0⟩ (heading v))
      (hthird : q.Rotates ⟨0, 0, 1⟩ ⟨0, 0, 1⟩) : FrameOf (some v) (some q)

theorem frameOf_bind (forward : Option (Vector3 ℝ)) :
  FrameOf forward (forward.bind (@frameOf ℝ realScalar))
  := by
  cases forward with
  | none => exact .unknown
  | some v =>
      rw [Option.bind_some]
      by_cases hsize : headingSize v < 1e-12
      · have hnone : @frameOf ℝ realScalar v = none := if_pos (.inr hsize)
        rw [hnone]
        exact .vertical hsize
      · obtain ⟨q, hq, hturns⟩ := frameOf_of_le (not_lt.mp hsize)
        rw [hq]
        exact .along (not_lt.mp hsize) hturns.norm_eq_one hturns.first hturns.third

theorem FrameOf.norm_eq_one {forward : Option (Vector3 ℝ)} {q : Quaternion ℝ}
    (h : FrameOf forward (some q)) :
  ‖q.toHamilton‖ = 1
  := by
  cases h with
  | along _ hnorm _ _ => exact hnorm

/-! ### The orientation after a run -/

theorem advance_of_not_pos {α : Type} [Scalar α] (a : Attitude α) (sample : Sample α)
    {seconds : α} (h : Scalar.isNaN seconds ∨ seconds ≤ 0.0) :
  a.advance sample seconds = a
  := if_pos h

theorem isFinite_after (gain : Float32) (run : List (Operation Float32)) :
  ((start gain).after run).rotation.isFinite
  := by
  have hidentity : (Quaternion.identity : Quaternion Float32).isFinite := by decide +kernel
  exact after_rotation (P := fun q => q.isFinite = true) (a := start gain) hidentity hidentity
    (fun _ _ => Quaternion.isFinite_of_normalized?) run

/-- The filter after a run from the start in exact arithmetic. -/
noncomputable def exactAfter (gain : ℝ) (run : List (Operation ℝ)) : Attitude ℝ :=
  @after ℝ realScalar (@start ℝ realScalar gain) run

/-- The orientation of the car in exact arithmetic. -/
noncomputable def exactOrientation (a : Attitude ℝ) : Quaternion ℝ :=
  @orientation ℝ realScalar a

theorem norm_exactAfter (gain : ℝ) (run : List (Operation ℝ)) :
  ‖(exactAfter gain run).rotation.toHamilton‖ = 1
  := by
  let := realScalar
  have hidentity : ‖(Quaternion.identity : Quaternion ℝ).toHamilton‖ = 1 := by
    rw [Quaternion.toHamilton_identity, norm_one]
  exact after_rotation (P := fun q => ‖q.toHamilton‖ = 1) (a := start gain) hidentity
    hidentity (fun _ _ => Quaternion.norm_of_normalized?) run

theorem frame_exactAfter (gain : ℝ) (run : List (Operation ℝ)) :
  FrameOf (lastForward run) (exactAfter gain run).frame
  := by
  let := realScalar
  have hframe : (exactAfter gain run).frame = (lastForward run).bind frameOf :=
    after_frame rfl run
  rw [hframe]
  exact frameOf_bind (lastForward run)

theorem norm_exactOrientation {a : Attitude ℝ} {forward : Option (Vector3 ℝ)}
    (hrotation : ‖a.rotation.toHamilton‖ = 1) (hframe : FrameOf forward a.frame) :
  ‖(exactOrientation a).toHamilton‖ = 1
  := by
  obtain ⟨rotation, gain, frame⟩ := a
  cases frame with
  | none => exact hrotation
  | some frame =>
      show ‖(@Quaternion.product ℝ realScalar rotation frame).toHamilton‖ = 1
      rw [Quaternion.toHamilton_product, norm_mul, hrotation, hframe.norm_eq_one, one_mul]

/-- Whatever is done with the filter, no component of its orientation is infinite or not a
number, and a sample that stands for no positive time changes nothing.  In exact arithmetic
its orientation and the one of the car are of norm one, and the frame of the car is the
rotation to the forward direction that was set last. -/
theorem unit_over_runs :
  (∀ (gain : Float32) (run : List (Operation Float32)),
    let q := ((start gain).after run).rotation
    ∀ x ∈ [q.w, q.x, q.y, q.z], ¬ x.isNaN ∧ ¬ x.isInf) ∧
  (∀ (a : Attitude Float32) (sample : Sample Float32) (seconds : Float32),
    seconds.isNaN ∨ seconds ≤ 0.0 → a.advance sample seconds = a) ∧
  ∀ (gain : ℝ) (run : List (Operation ℝ)),
    ‖(exactAfter gain run).rotation.toHamilton‖ = 1 ∧
    ‖(exactOrientation (exactAfter gain run)).toHamilton‖ = 1 ∧
    FrameOf (lastForward run) (exactAfter gain run).frame
  := by
  refine ⟨?_, ?_, ?_⟩
  · intro gain run
    exact Quaternion.forall_of_isFinite (isFinite_after gain run)
  · intro a sample seconds h
    exact a.advance_of_not_pos sample h
  · intro gain run
    have hrotation := norm_exactAfter gain run
    have hframe := frame_exactAfter gain run
    exact ⟨hrotation, norm_exactOrientation hrotation hframe, hframe⟩

/-- Samples that are infinite, that are not numbers and that stand for a very long time. -/
def wild : List (Operation Float32) :=
  [.advance ⟨⟨1.0 / 0.0, 0, 0⟩, ⟨1e38, -1e38, 3e38⟩⟩ 3e38, .setGain (0.0 / 0.0),
    .advance ⟨⟨0, 0, 1⟩, ⟨0, 0, 0⟩⟩ 1, .setForward (some ⟨0.0 / 0.0, 1e38, 0⟩)]

/-- The car drives towards the back of the sensor. -/
def backwards : List (Operation ℝ) :=
  [.setForward (some ⟨1, 1, 0⟩), .advance ⟨⟨0, 0, 1⟩, ⟨0, 0, 90⟩⟩ 1,
    .setForward (some ⟨-1, 0, 0⟩), .reset, .advance ⟨⟨1, 0, 0⟩, ⟨5, 6, 7⟩⟩ 8]

theorem unit_over_runs_backwards :
  let q := ((start 0.1).after wild).rotation
  let a := exactAfter 0.1 backwards
  (∀ x ∈ [q.w, q.x, q.y, q.z], ¬ x.isNaN ∧ ¬ x.isInf) ∧
    (-1.0 : Float32) ≤ 0.0 ∧
    (start 0.1 : Attitude Float32).advance ⟨⟨0, 0, 1⟩, ⟨9, 9, 9⟩⟩ (-1.0) = start 0.1 ∧
    ‖(exactOrientation a).toHamilton‖ = 1 ∧
    ∃ frame, a.frame = some frame ∧ frame.Rotates ⟨1, 0, 0⟩ ⟨-1, 0, 0⟩ ∧
      frame.Rotates ⟨0, 0, 1⟩ ⟨0, 0, 1⟩
  := by
  intro q a
  have hle : (-1.0 : Float32) ≤ 0.0 := by decide +kernel
  obtain ⟨hfinite, hstill, hexact⟩ := unit_over_runs
  obtain ⟨-, hnorm, hframe⟩ := hexact 0.1 backwards
  refine ⟨hfinite 0.1 wild, hle, hstill _ _ _ (.inr hle), hnorm, ?_⟩
  have hsize : headingSize ⟨-1, 0, 0⟩ = 1 := by norm_num [headingSize]
  have hheading : heading ⟨-1, 0, 0⟩ = ⟨-1, 0, 0⟩ := by
    rw [heading, hsize, Real.sqrt_one, div_one, div_one]
  have hlast : lastForward backwards = some ⟨-1, 0, 0⟩ := rfl
  rw [hlast] at hframe
  show ∃ frame, (exactAfter 0.1 backwards).frame = some frame ∧ _
  generalize (exactAfter 0.1 backwards).frame = frame at hframe
  cases hframe with
  | vertical hvertical =>
      rw [hsize] at hvertical
      norm_num at hvertical
  | along _ _ hfirst hthird =>
      rw [hheading] at hfirst
      exact ⟨_, rfl, hfirst, hthird⟩

end Attitude

end ModelCar
