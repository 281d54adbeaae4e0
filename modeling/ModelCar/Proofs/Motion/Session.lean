import ModelCar.Proofs.Motion.Mean
import ModelCar.Motion.Calibration

/-!
# The course of a calibration

A calibration takes in as many samples as it was started with, and ends with the last of
them.  What comes later changes nothing.
-/

namespace ModelCar

namespace Calibration

variable {α β : Type} [Scalar α] [Scalar β] [Precision α β]

/-- What is collected from a list of samples. -/
def Tally.ofList (mode : Mode) (d : CalibrationData α) (fed : List (Sample α)) :
    Tally α β :=
  fed.foldl (fun t s => t.add mode d s) .empty

theorem Tally.ofList_concat (mode : Mode) (d : CalibrationData α) (fed : List (Sample α))
    (s : Sample α) :
  (Tally.ofList mode d (fed ++ [s]) : Tally α β) = (Tally.ofList mode d fed).add mode d s
  := List.foldl_concat ..

/-- A calibration that has been started and has taken in some samples. -/
def collecting (c : Calibration α β) (mode : Mode) (target : Nat)
    (fed : List (Sample α)) : Calibration α β :=
  { c.collect mode target with
    collected := fed.length
    tally := .ofList mode c.data fed }

variable {c : Calibration α β} {mode : Mode} {target : Nat} {fed : List (Sample α)}

theorem status_finish (c : Calibration α β) :
  c.finish.status ≠ .collecting
  := by
  rw [finish]
  split
  · rintro ⟨⟩
  · rintro ⟨⟩

theorem feed_of_ne (h : c.status ≠ .collecting) (s : Sample α) :
  c.feed s = c
  := if_neg h

/-- One more sample. -/
theorem feed_collecting (c : Calibration α β) (mode : Mode) (target : Nat)
    (fed : List (Sample α)) (s : Sample α) :
  (c.collecting mode target fed).feed s
    = if target ≤ fed.length + 1 then (c.collecting mode target (fed ++ [s])).finish
      else c.collecting mode target (fed ++ [s])
  := by
  simp only [collecting, Tally.ofList_concat, List.length_append, List.length_singleton]
  exact if_pos rfl

/-- A calibration takes in samples up to its target, and then ends. -/
theorem foldl_feed (c : Calibration α β) (mode : Mode) (ht : 0 < target)
    (fed : List (Sample α)) :
  fed.foldl feed (c.collect mode target)
    = if fed.length < target then c.collecting mode target fed
      else (c.collecting mode target (fed.take target)).finish
  := by
  induction fed using List.reverseRecOn with
  | nil =>
      symm
      exact if_pos ht
  | append_singleton fed s ih =>
      rw [List.foldl_concat, ih, List.length_append, List.length_singleton]
      by_cases h : fed.length < target
      · rw [if_pos h, feed_collecting]
        by_cases hlast : target ≤ fed.length + 1
        · have htake : (fed ++ [s]).take target = fed ++ [s] := by
            apply List.take_of_length_le
            rw [List.length_append, List.length_singleton]
            omega
          rw [if_pos hlast, if_neg (by omega), htake]
        · rw [if_neg hlast, if_pos (by omega)]
      · rw [if_neg h, if_neg (by omega), feed_of_ne (status_finish _),
          List.take_append_of_le_length (by omega)]

/-- A calibration that succeeds has found out what follows from its samples. -/
theorem result_of_done (ht : 0 < target)
    (h : (fed.foldl feed (c.collect mode target)).status = .done) :
  target ≤ fed.length ∧
    (Tally.ofList mode c.data (fed.take target) : Tally α β).result? mode c.data
      = some (fed.foldl feed (c.collect mode target)).data
  := by
  rw [foldl_feed c mode ht] at *
  by_cases hlen : fed.length < target
  · rw [if_pos hlen] at h
    cases h
  · rw [if_neg hlen] at *
    use Nat.le_of_not_lt hlen
    rw [finish] at *
    split at h
    · rename_i data hr
      exact hr
    · cases h

/-! ### Samples at rest -/

omit [Scalar α] in
/-- The usual number of samples stands in for none. -/
theorem start_rest (hmode : mode ≠ .forward) (c : Calibration α β) (n : Nat) :
  c.start mode n = .ok (c.collect mode (if n = 0 then defaultRestTarget else n))
  := by
  cases mode with
  | gyro => rfl
  | full => rfl
  | forward => cases hmode rfl

/-- The moments of every axis of a vector of the samples. -/
def axes (p : Sample α → Vector3 α) (fed : List (Sample α)) : Vector3 (Moments β) :=
  ⟨.ofList (fed.map fun s => Precision.widen (p s).x),
    .ofList (fed.map fun s => Precision.widen (p s).y),
    .ofList (fed.map fun s => Precision.widen (p s).z)⟩

omit [Scalar α] in
theorem axes_concat (p : Sample α → Vector3 α) (fed : List (Sample α)) (s : Sample α) :
  (axes p (fed ++ [s]) : Vector3 (Moments β)) = pushAll (axes p fed) (p s)
  := by
  simp only [axes, pushAll, Vector3.zipWith, List.map_append, List.map_cons, List.map_nil,
    Moments.ofList_concat]

/-- In the first stage the rates of all samples count, and in full mode the accelerations; no
push does. -/
theorem ofList_rest (hmode : mode ≠ .forward) (d : CalibrationData α)
    (fed : List (Sample α)) :
  (Tally.ofList mode d fed : Tally α β) =
    { Tally.empty with
      rate := axes Sample.rate fed
      acceleration := axes Sample.acceleration (if mode = .full then fed else []) }
  := by
  induction fed using List.reverseRecOn with
  | nil =>
      rw [ite_self]
      rfl
  | append_singleton fed s ih =>
      rw [Tally.ofList_concat, ih, axes_concat]
      cases mode with
      | gyro => rfl
      | full =>
          simp only [if_true, axes_concat]
          rfl
      | forward => cases hmode rfl

theorem rate_ofList (hmode : mode ≠ .forward) (d : CalibrationData α)
    (fed : List (Sample α)) :
  (Tally.ofList mode d fed : Tally α β).rate = axes Sample.rate fed
  := by rw [ofList_rest hmode]

theorem acceleration_ofList (d : CalibrationData α) (fed : List (Sample α)) :
  (Tally.ofList .full d fed : Tally α β).acceleration = axes Sample.acceleration fed
  := by
  rw [ofList_rest (by rintro ⟨⟩)]
  rfl

variable (β) in
/-- The data with the rate of rotation that is found at rest. -/
def withRate (d : CalibrationData α) (fed : List (Sample α)) : CalibrationData α :=
  { d with
    rateBias := (means (axes Sample.rate fed : Vector3 (Moments β))).map Precision.narrow
    valid := true }

variable (β) in
/-- Some axis varies more than a first stage allows. -/
def Moved (mode : Mode) (fed : List (Sample α)) : Prop :=
  varies rateVarianceLimit (axes Sample.rate fed : Vector3 (Moments β)) ∨
    mode = .full ∧
      varies accelerationVarianceLimit (axes Sample.acceleration fed : Vector3 (Moments β))

variable (β) in
/-- The data that a first stage leads to, if it succeeds. -/
def foundAtRest (mode : Mode) (d : CalibrationData α) (fed : List (Sample α)) :
    CalibrationData α :=
  if mode = .full then
    restData (withRate β d fed) (means (axes Sample.acceleration fed : Vector3 (Moments β)))
  else withRate β d fed

/-- A first stage fails if the car has moved. -/
theorem result?_of_moved (hmode : mode ≠ .forward) (d : CalibrationData α)
    (h : Moved β mode fed) :
  (Tally.ofList mode d fed : Tally α β).result? mode d = none
  := by
  have hrate := rate_ofList (β := β) hmode d fed
  cases mode with
  | gyro =>
      obtain h | ⟨⟨⟩, -⟩ := h
      simp only [Tally.result?, hrate]
      exact if_pos h
  | full =>
      simp only [Tally.result?, hrate, acceleration_ofList]
      exact if_pos (h.imp_right And.right)
  | forward => cases hmode rfl

/-- A first stage succeeds if the car has not moved. -/
theorem result?_of_not_moved (hmode : mode ≠ .forward) (d : CalibrationData α)
    (h : ¬ Moved β mode fed) :
  (Tally.ofList mode d fed : Tally α β).result? mode d = some (foundAtRest β mode d fed)
  := by
  have hrate := rate_ofList (β := β) hmode d fed
  cases mode with
  | gyro =>
      simp only [Tally.result?, hrate]
      exact if_neg fun hvaries => h (.inl hvaries)
  | full =>
      simp only [Tally.result?, hrate, acceleration_ofList]
      exact if_neg fun hvaries => h (hvaries.imp_right fun hvaries => ⟨rfl, hvaries⟩)
  | forward => cases hmode rfl

/-- What a first stage finds out, if it succeeds. -/
theorem result_rest (hmode : mode ≠ .forward) {d e : CalibrationData α}
    (h : (Tally.ofList mode d fed : Tally α β).result? mode d = some e) :
  mode = .gyro ∧ e = withRate β d fed ∨
    mode = .full ∧ e = restData (withRate β d fed)
      (means (axes Sample.acceleration fed : Vector3 (Moments β)))
  := by
  by_cases hmoved : Moved β mode fed
  · rw [result?_of_moved hmode d hmoved] at h
    cases h
  · rw [result?_of_not_moved hmode d hmoved] at h
    obtain rfl := Option.some.inj h
    cases mode with
    | gyro => exact .inl ⟨rfl, rfl⟩
    | full => exact .inr ⟨rfl, rfl⟩
    | forward => cases hmode rfl

theorem finish_of_moved (hmode : mode ≠ .forward) (h : Moved β mode fed) :
  (c.collecting mode target fed).finish
    = { c.collecting mode target fed with status := .failed }
  := by
  have hresult := result?_of_moved hmode c.data h
  simp only [finish, collecting, collect, hresult]

theorem finish_of_not_moved (hmode : mode ≠ .forward) (h : ¬ Moved β mode fed) :
  (c.collecting mode target fed).finish
    = { c.collecting mode target fed with
        data := foundAtRest β mode c.data fed
        status := .done }
  := by
  have hresult := result?_of_not_moved hmode c.data h
  simp only [finish, collecting, collect, hresult]

/-! ### The second stage -/

/-- A second stage fails if the sum of the pushes is too short. -/
theorem result_forward_eq_none_iff (t : Tally α β) (d : CalibrationData α) :
  t.result? .forward d = none ↔ t.push.dot t.push < smallestSum
  := by
  simp only [Tally.result?]
  split
  · rename_i h
    exact iff_of_true rfl h
  · rename_i h
    apply iff_of_false _ h
    split
    · rintro ⟨⟩
    · rintro ⟨⟩

end Calibration

end ModelCar
