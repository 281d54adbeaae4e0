import Mathlib.Data.List.Induction
import Mathlib.Tactic.Use
import ModelCar.Drive.Source
import ModelCar.Proofs.Clock

/-!
# Sources of commands over a run

A source of commands is updated again and again, each time with what it gives at that
time.  The radio receiver is known by the polls that heard a command, the wireless
clients by the commands that were taken from them: as long as a source is active, the
last of these times is younger than its interval or timeout.
-/

namespace ModelCar

/-- What a source gives at an update. -/
structure Reading where
  time : Nat
  command : Option Controls

/-! ### The radio receiver -/

namespace Radio

variable {r : Radio}

/-- The receiver is polled at an update. -/
def polls (r : Radio) (now : Millis) : Bool :=
  r.enabled && (r.pace.due now).isSome

theorem update_of_polls {now : Millis} (h : r.polls now) (reading : Option Controls) :
  r.update now reading = { r with pace := r.pace.restart now, command := reading }
  := by
  obtain ⟨he, hd⟩ := Bool.and_eq_true_iff.mp h
  obtain ⟨elapsed, hd⟩ := Option.isSome_iff_exists.mp hd
  simp only [update, he, hd, if_true]

theorem update_of_not_polls {now : Millis} (h : ¬ r.polls now)
    (reading : Option Controls) :
  r.update now reading = r
  := by
  unfold polls at h
  unfold update
  split
  · split
    · rfl
    · simp_all
  · rfl

theorem update_interval (r : Radio) (now : Millis) (reading : Option Controls) :
  (r.update now reading).pace.interval = r.pace.interval
  := by
  by_cases h : r.polls now
  · rw [update_of_polls h, Pace.restart_interval]
  · rw [update_of_not_polls h]

/-- The receiver after a run of updates. -/
def after (r : Radio) (run : List Reading) : Radio :=
  run.foldl (fun r x => r.update (.ofTime x.time) x.command) r

theorem after_concat (r : Radio) (run : List Reading) (x : Reading) :
  r.after (run ++ [x]) = (r.after run).update (.ofTime x.time) x.command
  := by
  rw [after, List.foldl_append]
  rfl

theorem after_interval (r : Radio) (run : List Reading) :
  (r.after run).pace.interval = r.pace.interval
  := by
  induction run using List.reverseRecOn with
  | nil => rfl
  | append_singleton run x ih => rw [after_concat, update_interval, ih]

/-- The receiver is polled at an update and a command is heard. -/
def hears (r : Radio) (x : Reading) : Prop :=
  r.polls (.ofTime x.time) ∧ x.command.isSome

instance (r : Radio) (x : Reading) : Decidable (r.hears x) :=
  inferInstanceAs (Decidable (_ ∧ _))

/-- The times of the polls of a run that heard a command. -/
def heard (r : Radio) : List Reading → List Nat
  | [] => []
  | x :: run =>
    let later := (r.update (.ofTime x.time) x.command).heard run
    if r.hears x then x.time :: later else later

theorem heard_concat (r : Radio) (run : List Reading) (x : Reading) :
  r.heard (run ++ [x]) = r.heard run ++ if (r.after run).hears x then [x.time] else []
  := by
  induction run generalizing r with
  | nil => rfl
  | cons y run ih =>
      simp only [List.cons_append, heard]
      rw [ih]
      split
      · rfl
      · rfl

theorem exists_reading_of_mem_heard {run : List Reading} {t : Nat} (h : t ∈ r.heard run) :
  ∃ x ∈ run, x.time = t
  := by
  induction run generalizing r with
  | nil => cases h
  | cons y run ih =>
      simp only [heard] at h
      split at h
      · obtain h | h := List.mem_cons.mp h
        · use y, List.mem_cons_self, h.symm
        · obtain ⟨x, hx, ht⟩ := ih h
          use x, List.mem_cons_of_mem _ hx, ht
      · obtain ⟨x, hx, ht⟩ := ih h
        use x, List.mem_cons_of_mem _ hx, ht

/-- The command of an active receiver is the one that it heard at its last poll. -/
theorem exists_heard_of_isActive (hr : r.command = none) {run : List Reading}
    (h : (r.after run).isActive) :
  (r.after run).enabled ∧
    ∃ t, (r.heard run).getLast? = some t ∧ (r.after run).pace.last = some (.ofTime t)
  := by
  induction run using List.reverseRecOn with
  | nil =>
      have : r.isActive := h
      simp [isActive, hr] at this
  | append_singleton run x ih =>
      rw [after_concat] at h ⊢
      rw [heard_concat]
      by_cases hp : (r.after run).polls (.ofTime x.time)
      · rw [update_of_polls hp] at h ⊢
        have hx : (r.after run).hears x := ⟨hp, h⟩
        use (Bool.and_eq_true_iff.mp hp).1, x.time
        rw [if_pos hx]
        simp
      · rw [update_of_not_polls hp] at h ⊢
        have hx : ¬ (r.after run).hears x := fun hx => hp hx.1
        rw [if_neg hx, List.append_nil]
        apply ih h

/-- The command of an active receiver was heard at this very update, or less than the
interval ago. -/
theorem age_lt_of_isActive (hr : r.command = none) {run : List Reading} {x : Reading}
    (hx : ∀ y ∈ run, y.time ≤ x.time) (h : (r.after (run ++ [x])).isActive) :
  ∃ t ≤ x.time, (r.heard (run ++ [x])).getLast? = some t ∧
    ((r.after run).hears x ∧ t = x.time ∨ (x.time - t) % 2 ^ 32 < r.pace.interval.toNat)
  := by
  rw [after_concat] at h
  rw [heard_concat]
  by_cases hp : (r.after run).polls (.ofTime x.time)
  · rw [update_of_polls hp] at h
    have hx : (r.after run).hears x := ⟨hp, h⟩
    use x.time, Nat.le_refl _
    rw [if_pos hx]
    constructor
    · simp
    · left
      constructor
      · exact hx
      · rfl
  · rw [update_of_not_polls hp] at h
    have hh : ¬ (r.after run).hears x := fun hh => hp hh.1
    obtain ⟨he, t, ht, hl⟩ := exists_heard_of_isActive hr h
    obtain ⟨y, hy, rfl⟩ := exists_reading_of_mem_heard (List.mem_of_getLast? ht)
    use y.time, hx y hy
    rw [if_neg hh, List.append_nil]
    use ht
    right
    rw [← r.after_interval run, ← Pace.due_eq_none_iff hl (hx y hy)]
    simpa [polls, he] using hp

end Radio

/-! ### The wireless clients -/

namespace Wireless

variable {w : Wireless}

/-- The wireless clients after a run of updates. -/
def after (w : Wireless) (run : List Reading) : Wireless :=
  run.foldl (fun w x => w.update (.ofTime x.time) x.command) w

/-- The commands that were taken in a run, with their times. -/
def taken (run : List Reading) : List (Controls × Nat) :=
  run.filterMap fun x => x.command.map (·, x.time)

@[simp] theorem update_timeout (w : Wireless) (now : Millis) (received : Option Controls) :
  (w.update now received).timeout = w.timeout
  := by cases received <;> rfl

@[simp] theorem update_now (w : Wireless) (now : Millis) (received : Option Controls) :
  (w.update now received).now = now
  := by cases received <;> rfl

theorem after_concat (w : Wireless) (run : List Reading) (x : Reading) :
  w.after (run ++ [x]) = (w.after run).update (.ofTime x.time) x.command
  := by
  rw [after, List.foldl_append]
  rfl

theorem after_timeout (w : Wireless) (run : List Reading) :
  (w.after run).timeout = w.timeout
  := by
  induction run using List.reverseRecOn with
  | nil => rfl
  | append_singleton run x ih => rw [after_concat, update_timeout, ih]

theorem taken_append (run later : List Reading) :
  taken (run ++ later) = taken run ++ taken later
  := List.filterMap_append

theorem exists_reading_of_mem_taken {run : List Reading} {p : Controls × Nat}
    (h : p ∈ taken run) :
  ∃ x ∈ run, x.time = p.2
  := by
  obtain ⟨x, hx, h⟩ := List.mem_filterMap.mp h
  obtain ⟨c, -, rfl⟩ := Option.map_eq_some_iff.mp h
  use x, hx

theorem taken_time_le {run : List Reading} {x : Reading}
    (hx : ∀ y ∈ run, y.time ≤ x.time) {p : Controls × Nat} (hp : p ∈ taken (run ++ [x])) :
  p.2 ≤ x.time
  := by
  obtain ⟨y, hy, ht⟩ := exists_reading_of_mem_taken hp
  rw [← ht]
  obtain hy | hy := List.mem_append.mp hy
  · apply hx y hy
  · obtain rfl := List.mem_singleton.mp hy
    apply Nat.le_refl

/-- The last command that was taken is the one that is kept, for ever. -/
theorem after_last (hw : w.last = none) (run : List Reading) :
  (w.after run).last = (taken run).getLast?.map fun p => (p.1, .ofTime p.2)
  := by
  induction run using List.reverseRecOn with
  | nil => exact hw
  | append_singleton run x ih =>
      obtain ⟨t, c⟩ := x
      rw [after_concat, taken_append]
      cases c with
      | none => simpa [update, taken] using ih
      | some c => simp [update, taken]

/-- The wireless clients are active if the last command that was taken is, on the clock,
younger than the timeout. -/
theorem isActive_after_concat_iff (hw : w.last = none) {run : List Reading} {x : Reading}
    (hx : ∀ y ∈ run, y.time ≤ x.time) :
  (w.after (run ++ [x])).isActive ↔
    ∃ p, (taken (run ++ [x])).getLast? = some p ∧
      (x.time - p.2) % 2 ^ 32 < w.timeout.toNat
  := by
  have hnow : (w.after (run ++ [x])).now = .ofTime x.time := by
    rw [after_concat, update_now]
  rw [isActive, isActiveAt, after_last hw, hnow, after_timeout]
  cases hp : (taken (run ++ [x])).getLast? with
  | none => simp
  | some p =>
      have hle := taken_time_le hx (List.mem_of_getLast? hp)
      simp [Millis.ofTime_sub_lt_iff hle]

/-- The wireless clients have a command exactly as long as they are active. -/
theorem isSome_command (w : Wireless) :
  w.command.isSome = w.isActive
  := by
  unfold command
  cases h : w.isActive with
  | false => rfl
  | true =>
      unfold isActive isActiveAt at h
      split at h
      · rename_i hl
        simp [hl]
      · cases h

end Wireless

end ModelCar
