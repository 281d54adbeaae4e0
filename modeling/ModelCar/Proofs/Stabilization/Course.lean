import Mathlib.Tactic.Use
import ModelCar.Stabilization.Stabilizer

/-!
# The course of the stabilizer

Between its steps the stabilizer is asked to use other tunings, of which it takes those
that may be used, brought into range.  That touches neither its weight nor what its
controller has gathered.
-/

namespace ModelCar

variable {α : Type} [Scalar α]

/-- A step of the controller does not change its gains. -/
theorem Pid.step_gains (p : Pid α) (error seconds : α) :
  (p.step error seconds).2.gains = p.gains
  := by
  unfold step
  split
  · rfl
  · rfl

namespace Stabilizer

/-- The stabilizer when a tuning has been asked for. -/
def ask (s : Stabilizer α) (t : Tuning α) : Stabilizer α :=
  if t.clamped.IsValid then s.retune t.clamped else s

/-- The stabilizer when some tunings have been asked for, one after the other. -/
def askAll (s : Stabilizer α) (asked : List (Tuning α)) : Stabilizer α :=
  asked.foldl ask s

/-- A turn of the stabilizer: it is asked for tunings, and then it takes a step. -/
def turn (s : Stabilizer α) (asked : List (Tuning α)) (trusted : Bool) (input : Input α)
    (elapsed : Millis) : (α × α) × Stabilizer α :=
  (s.askAll asked).step trusted input elapsed

/-- What can become of the stabilizer, whatever is asked for and whatever the sensor
says. -/
inductive IsReachable : Stabilizer α → Prop where
  | start : IsReachable start
  | ask {s : Stabilizer α} (h : IsReachable s) (t : Tuning α) : IsReachable (s.ask t)
  | step {s : Stabilizer α} (h : IsReachable s) (trusted : Bool) (input : Input α)
      (elapsed : Millis) : IsReachable (s.step trusted input elapsed).2

variable {s : Stabilizer α}

/-- A step of the stabilization changes neither the tuning nor the gains. -/
theorem step_frame (s : Stabilizer α) (trusted : Bool) (input : Input α)
    (elapsed : Millis) :
  (s.step trusted input elapsed).2.tuning = s.tuning ∧
    (s.step trusted input elapsed).2.pid.gains = s.pid.gains
  := by
  unfold step
  dsimp only
  split
  · exact ⟨rfl, rfl⟩
  · use rfl
    apply Pid.step_gains

theorem step_weight (s : Stabilizer α) (trusted : Bool) (input : Input α)
    (elapsed : Millis) :
  (s.step trusted input elapsed).2.weight =
    s.fadedWeight (s.tuning.enabled && trusted) elapsed
  := by
  simp only [step]
  split
  · rfl
  · rfl

theorem ask_weight (s : Stabilizer α) (t : Tuning α) :
  (s.ask t).weight = s.weight
  := by
  unfold ask
  split
  · rfl
  · rfl

theorem askAll_weight (s : Stabilizer α) (asked : List (Tuning α)) :
  (s.askAll asked).weight = s.weight
  := by
  induction asked generalizing s with
  | nil => rfl
  | cons t asked ih => exact (ih _).trans (ask_weight s t)

theorem IsReachable.askAll (h : s.IsReachable) (asked : List (Tuning α)) :
  (s.askAll asked).IsReachable
  := by
  induction asked generalizing s with
  | nil => exact h
  | cons t asked ih => exact ih (h.ask t)

theorem IsReachable.turn (h : s.IsReachable) (asked : List (Tuning α)) (trusted : Bool)
    (input : Input α) (elapsed : Millis) :
  (s.turn asked trusted input elapsed).2.IsReachable
  := (h.askAll asked).step trusted input elapsed

end Stabilizer

end ModelCar
