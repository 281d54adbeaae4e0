import Mathlib
import ModelCar.Proofs.Clock
import ModelCar.Proofs.Motion.Calibration

/-!
# The time that the attitude is advanced by

Whenever the sensor is due it is read, and the time since it was last due counts as
passed.  If the reading finds a sample, the attitude is advanced by that time; if it
finds nothing, the time is lost.  So between two samples, the attitude is advanced by all
the time that has passed except for what is lost.
-/

namespace ModelCar

namespace Inertial

/-- An update of the inertial unit: its time, and what a reading of the sensor finds. -/
structure Poll where
  time : Nat
  sample : Option (Sample Float32)

/-- The inertial unit after an update. -/
def next (i : Inertial) (p : Poll) : Inertial :=
  i.update (.ofTime p.time) p.sample

/-- The inertial unit after a run of updates. -/
def after (i : Inertial) (run : List Poll) : Inertial :=
  run.foldl next i

/-- The sensor is due at an update, and its reading finds a sample. -/
def Finds (i : Inertial) (p : Poll) : Prop :=
  (i.due (.ofTime p.time)).isSome ∧ p.sample.isSome

instance (i : Inertial) (p : Poll) : Decidable (i.Finds p) :=
  inferInstanceAs (Decidable (_ ∧ _))

/-- The updates of a run at which the sensor is due, with the time since the last one. -/
def readings (i : Inertial) : List Poll → List (Poll × Millis)
  | [] => []
  | p :: run =>
    let later := (i.next p).readings run
    match i.due (.ofTime p.time) with
    | some elapsed => (p, elapsed) :: later
    | none => later

/-- The time, in milliseconds, that some readings advance the attitude by. -/
def advanced (readings : List (Poll × Millis)) : Nat :=
  ((readings.filter fun r => r.1.sample.isSome).map fun r => r.2.toNat).sum

/-- The time, in milliseconds, of the readings that find nothing. -/
def lost (readings : List (Poll × Millis)) : Nat :=
  ((readings.filter fun r => r.1.sample.isNone).map fun r => r.2.toNat).sum

variable {i : Inertial}

/-! ### One update -/

/-- A reading that finds a sample advances the attitude by the time since the last one,
and any other update leaves the attitude as it is. -/
theorem next_attitude (i : Inertial) (p : Poll) :
  (i.next p).attitude =
    match i.due (.ofTime p.time), p.sample with
    | some elapsed, some _ =>
      i.attitude.advance (i.next p).sample (Scalar.ofNat elapsed.toNat / 1000.0)
    | _, _ => i.attitude
  := by
  unfold next update
  cases i.due (.ofTime p.time) with
  | none => rfl
  | some elapsed =>
      cases p.sample with
      | none => rfl
      | some raw => rfl

/-- A sensor that is due is next due when its interval has passed from now on. -/
theorem next_pace_of_due {p : Poll} {elapsed : Millis}
    (h : i.due (.ofTime p.time) = some elapsed) :
  (i.next p).pace.last = some (.ofTime p.time)
  := by
  unfold next update
  rw [h]
  cases p.sample with
  | none => rfl
  | some raw => rfl

theorem next_of_not_due {p : Poll} (h : i.due (.ofTime p.time) = none) :
  i.next p = i
  := by
  unfold next update
  rw [h]

/-- Less than a round of the clock after the sensor was last due, the time since is known
exactly. -/
theorem toNat_elapsed {u : Nat} (hu : i.pace.last = some (.ofTime u)) {p : Poll}
    {elapsed : Millis} (h : i.due (.ofTime p.time) = some elapsed) (hle : u ≤ p.time)
    (hlt : p.time < u + 2 ^ 32) :
  elapsed.toNat = p.time - u
  := by
  have he : elapsed = .ofTime p.time - .ofTime u := by
    unfold due Pace.due at h
    rw [hu] at h
    split at h
    · dsimp only at h
      split at h
      · cases h
      · exact (Option.some_inj.mp h).symm
    · cases h
  rw [he, Millis.toNat_ofTime_sub hle]
  exact Nat.mod_eq_of_lt (by omega)

/-! ### Runs -/

theorem readings_of_due {p : Poll} {elapsed : Millis} (run : List Poll)
    (h : i.due (.ofTime p.time) = some elapsed) :
  i.readings (p :: run) = (p, elapsed) :: (i.next p).readings run
  := by rw [readings, h]

theorem readings_of_not_due {p : Poll} (run : List Poll)
    (h : i.due (.ofTime p.time) = none) :
  i.readings (p :: run) = i.readings run
  := by rw [readings, h, next_of_not_due h]

/-- The time of a reading is either what the attitude is advanced by, or lost. -/
theorem advanced_add_lost (readings : List (Poll × Millis)) :
  advanced readings + lost readings = (readings.map fun r => r.2.toNat).sum
  := by
  induction readings with
  | nil => rfl
  | cons r readings ih =>
      unfold advanced lost at ih ⊢
      rw [List.map_cons, List.sum_cons, ← ih]
      cases hs : r.1.sample with
      | none =>
          simp [hs]
          omega
      | some raw =>
          simp [hs]
          omega

/-- Nothing is lost when every reading that finds nothing comes at the time of the one
before. -/
theorem lost_eq_zero_iff (readings : List (Poll × Millis)) :
  lost readings = 0 ↔ ∀ r ∈ readings, r.1.sample = none → r.2 = 0
  := by
  induction readings with
  | nil => simp [lost]
  | cons r readings ih =>
      unfold lost at ih ⊢
      rw [List.forall_mem_cons, ← ih]
      cases hs : r.1.sample with
      | none => simp [hs, ← UInt32.toNat_inj]
      | some raw => simp [hs]

/-- From the time when the sensor was last due to another one, the readings make up all
the time between. -/
theorem sum_readings {u : Nat} (hu : i.pace.last = some (.ofTime u)) {run : List Poll}
    {p : Poll} (hin : InOrder Poll.time (run ++ [p])) (hle : ∀ q ∈ run ++ [p], u ≤ q.time)
    (hlt : p.time < u + 2 ^ 32) (hp : ((i.after run).due (.ofTime p.time)).isSome) :
  ((i.readings (run ++ [p])).map fun r => r.2.toNat).sum = p.time - u
  := by
  induction run generalizing i u with
  | nil =>
      obtain ⟨elapsed, he⟩ := Option.isSome_iff_exists.mp hp
      have he : i.due (.ofTime p.time) = some elapsed := he
      rw [List.nil_append, readings_of_due [] he]
      show elapsed.toNat + 0 = _
      rw [Nat.add_zero]
      exact toNat_elapsed hu he (hle p (List.mem_singleton_self p)) hlt
  | cons q run ih =>
      obtain ⟨hq, hin⟩ := List.pairwise_cons.mp hin
      obtain ⟨huq, hle⟩ := List.forall_mem_cons.mp hle
      have hqp : q.time ≤ p.time := hq p (List.mem_append_right _ (List.mem_singleton_self p))
      rw [List.cons_append]
      cases hd : i.due (.ofTime q.time) with
      | none =>
          rw [readings_of_not_due _ hd]
          apply ih hu hin hle hlt
          rwa [after, List.foldl_cons, next_of_not_due hd] at hp
      | some elapsed =>
          rw [readings_of_due _ hd, List.map_cons, List.sum_cons,
            ih (next_pace_of_due hd) hin hq (by omega) hp]
          show elapsed.toNat + _ = _
          rw [toNat_elapsed hu hd huq (by omega)]
          omega

/-- Between two readings that find a sample, less than a round of the clock apart, the
attitude is advanced by the time between them, except for what is lost in readings that
find nothing; so no time is lost exactly if each of these comes at the time of the reading
before. -/
theorem no_time_lost_iff {run between : List Poll} {first second : Poll}
    (hin : InOrder Poll.time (run ++ first :: (between ++ [second])))
    (hspan : second.time < first.time + 2 ^ 32) (hfirst : (i.after run).Finds first)
    (hsecond : (i.after (run ++ first :: between)).Finds second) :
  advanced ((i.after (run ++ [first])).readings (between ++ [second])) +
      lost ((i.after (run ++ [first])).readings (between ++ [second])) =
    second.time - first.time ∧
  (advanced ((i.after (run ++ [first])).readings (between ++ [second])) =
      second.time - first.time ↔
    ∀ r ∈ (i.after (run ++ [first])).readings (between ++ [second]),
      r.1.sample = none → r.2 = 0) ∧
  ∀ p, (i.next p).attitude =
    match i.due (.ofTime p.time), p.sample with
    | some elapsed, some _ =>
      i.attitude.advance (i.next p).sample (Scalar.ofNat elapsed.toNat / 1000.0)
    | _, _ => i.attitude
  := by
  obtain ⟨elapsed, he⟩ := Option.isSome_iff_exists.mp hfirst.1
  have hlast : (i.after (run ++ [first])).pace.last = some (.ofTime first.time) := by
    rw [after, List.foldl_concat]
    exact next_pace_of_due he
  obtain ⟨hle, hin⟩ := List.pairwise_cons.mp (List.pairwise_append.mp hin).2.1
  have hdue : (((i.after (run ++ [first])).after between).due (.ofTime second.time)).isSome := by
    have ha : i.after (run ++ first :: between) = (i.after (run ++ [first])).after between := by
      simp [after]
    rw [← ha]
    exact hsecond.1
  have htotal := sum_readings hlast hin hle hspan hdue
  rw [← advanced_add_lost] at htotal
  refine ⟨htotal, ?_, next_attitude i⟩
  rw [← lost_eq_zero_iff]
  omega

/-- A sensor that is read every two milliseconds. -/
def steady : Inertial :=
  { pace := ⟨2, none⟩, enabled := true }

/-- A reading of a sensor that lies still. -/
def still : Sample Float32 :=
  ⟨⟨0.0, 0.0, 1.0⟩, .zero⟩

/-- Across a round of the clock no time is lost, with an update in between that comes too
early for a reading. -/
theorem no_time_lost_steadily :
  advanced ((steady.after [⟨2 ^ 32 - 2, still⟩]).readings
    [⟨2 ^ 32 - 1, none⟩, ⟨2 ^ 32, still⟩, ⟨2 ^ 32 + 3, still⟩]) = 5
  := by
  have h := @no_time_lost_iff steady [] [⟨2 ^ 32 - 1, none⟩, ⟨2 ^ 32, still⟩]
    ⟨2 ^ 32 - 2, still⟩ ⟨2 ^ 32 + 3, still⟩ (by decide) (by decide) (by decide +kernel)
    (by decide +kernel)
  have hl : lost ((steady.after [⟨2 ^ 32 - 2, still⟩]).readings
      [⟨2 ^ 32 - 1, none⟩, ⟨2 ^ 32, still⟩, ⟨2 ^ 32 + 3, still⟩]) = 0 := by decide +kernel
  have htotal : advanced ((steady.after [⟨2 ^ 32 - 2, still⟩]).readings
        [⟨2 ^ 32 - 1, none⟩, ⟨2 ^ 32, still⟩, ⟨2 ^ 32 + 3, still⟩]) +
      lost ((steady.after [⟨2 ^ 32 - 2, still⟩]).readings
        [⟨2 ^ 32 - 1, none⟩, ⟨2 ^ 32, still⟩, ⟨2 ^ 32 + 3, still⟩]) = 5 := h.1
  rwa [hl, Nat.add_zero] at htotal

/-- A reading that finds nothing loses the time since the one before: of the four
milliseconds between two samples, the attitude is advanced by two. -/
theorem time_lost :
  ∃ (i : Inertial) (first : Poll) (between : List Poll) (second : Poll),
    i.enabled ∧ InOrder Poll.time (first :: (between ++ [second])) ∧
      second.time < first.time + 2 ^ 32 ∧ i.Finds first ∧
      (i.after (first :: between)).Finds second ∧
      advanced ((i.after [first]).readings (between ++ [second])) ≠
        second.time - first.time
  := by
  use steady, ⟨1000, still⟩, [⟨1002, none⟩], ⟨1004, still⟩
  decide +kernel

end Inertial

end ModelCar
