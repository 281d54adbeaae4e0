import Mathlib.Algebra.Group.Nat.Defs
import ModelCar.Clock

/-!
# The clock and the time

The clock shows the time modulo `2 ^ 32`, so the difference of two readings is the time
that has passed between them only if that is less than `2 ^ 32`.
-/

namespace ModelCar

namespace Millis

/-- What the clock shows at a time. -/
def ofTime (t : Nat) : Millis :=
  .ofNat t

theorem toNat_ofTime_sub {t u : Nat} (h : u ≤ t) :
  (ofTime t - ofTime u).toNat = (t - u) % 2 ^ 32
  := by
  rw [UInt32.toNat_sub, ofTime, ofTime, UInt32.toNat_ofNat', UInt32.toNat_ofNat']
  omega

theorem ofTime_sub_lt_iff {t u : Nat} (h : u ≤ t) (n : Millis) :
  ofTime t - ofTime u < n ↔ (t - u) % 2 ^ 32 < n.toNat
  := by rw [UInt32.lt_iff_toNat_lt, toNat_ofTime_sub h]

theorem le_ofTime_sub_iff {t u : Nat} (h : u ≤ t) (n : Millis) :
  n ≤ ofTime t - ofTime u ↔ n.toNat ≤ (t - u) % 2 ^ 32
  := by rw [UInt32.le_iff_toNat_le, toNat_ofTime_sub h]

end Millis

/-- What has come in the order of its times. -/
def InOrder {α : Type} (time : α → Nat) (run : List α) : Prop :=
  run.Pairwise fun x y => time x ≤ time y

instance {α : Type} (time : α → Nat) (run : List α) : Decidable (InOrder time run) :=
  inferInstanceAs (Decidable (run.Pairwise _))

namespace InOrder

variable {α : Type} {time : α → Nat} {run : List α} {x : α}

theorem init (h : InOrder time (run ++ [x])) :
  InOrder time run
  := (List.pairwise_append.mp h).1

theorem le_last (h : InOrder time (run ++ [x])) :
  ∀ y ∈ run, time y ≤ time x
  := by
  intro y hy
  apply (List.pairwise_append.mp h).2.2 y hy
  apply List.mem_singleton_self

/-- What is read off at the same times comes no later either. -/
theorem le_last_map {β : Type} {timeOf : β → Nat} {g : α → β}
    (h : InOrder time (run ++ [x])) (hg : ∀ y, timeOf (g y) = time y) :
  ∀ z ∈ run.map g, timeOf z ≤ timeOf (g x)
  := by
  intro z hz
  obtain ⟨y, hy, rfl⟩ := List.mem_map.mp hz
  rw [hg, hg]
  apply h.le_last y hy

end InOrder

namespace Pace

@[simp] theorem restart_interval (p : Pace) (now : Millis) :
  (p.restart now).interval = p.interval
  := rfl

@[simp] theorem restart_last (p : Pace) (now : Millis) :
  (p.restart now).last = some now
  := rfl

/-- A pace rests until its interval has passed, and whenever the clock comes round to
the same readings. -/
theorem due_eq_none_iff {p : Pace} {t u : Nat} (hp : p.last = some (.ofTime u))
    (h : u ≤ t) :
  p.due (.ofTime t) = none ↔ (t - u) % 2 ^ 32 < p.interval.toNat
  := by
  rw [← Millis.ofTime_sub_lt_iff h]
  simp [due, hp]

end Pace

end ModelCar
