import Mathlib.Data.List.Chain
import ModelCar.Proofs.Control.Conduct

/-!
# The alarm

The alarm of the car is the active failsafe.  Over any run of updates, changes of the
timeout and resets, it begins when the timeout has passed without an active source, and
ends with the first update that finds one again.  The control loop tells about every
beginning and every end: it keeps in mind the state that it has told about last, and this
never differs from the state of the failsafe between two turns.
-/

namespace ModelCar

/-- The change of the failsafe that an effect tells about. -/
def Effect.change? : Effect → Option Bool
  | .failsafeChanged active => some active
  | _ => none

/-- The changes of the failsafe that some effects tell about, in order. -/
def changes (effects : List Effect) : List Bool :=
  effects.filterMap Effect.change?

theorem changes_append (effects more : List Effect) :
  changes (effects ++ more) = changes effects ++ changes more
  := List.filterMap_append ..

/-- Nothing but what moves the car tells about the failsafe. -/
theorem changes_motions (effects : List Effect) :
  changes (motions effects) = changes effects
  := by
  induction effects with
  | nil => rfl
  | cons e effects ih =>
      rw [changes, motions, List.filter_cons]
      cases e with
      | failsafeChanged active => exact congrArg (active :: ·) ih
      | _ => exact ih

theorem changes_of_still {effects : List Effect} (h : ∀ e ∈ effects, ¬ e.Moves) :
  changes effects = []
  := by
  rw [← changes_motions, motions_of_still h]
  rfl

/-- What is told of the alarm when it was like this before and is like that after. -/
def news (before after : Bool) : List Bool :=
  if after = before then [] else [after]

namespace Control

variable {c : Control}

/-! ### A turn -/

theorem changes_failsafeEffects (before after : Failsafe.State) :
  changes (failsafeEffects before after) =
    news (before = .active) (after = .active)
  := by cases before <;> cases after <;> rfl

theorem changes_guard (c : Control) (now : Millis) (target : Controls) :
  changes (c.guard now target).2.2 =
    news (c.failsafeSeen = .active) (c.guard now target).2.1.failsafe.isActive
  := by
  by_cases h : (c.failsafe.update now c.radio.isActive c.wireless.isActive).isActive
  · rw [guard_of_active c target h, changes_append, changes_failsafeEffects, h]
    exact List.append_nil _
  · rw [guard_of_not_active c target h, changes_failsafeEffects]
    rfl

theorem changes_drive (c : Control) (now : Millis) (target : Controls) :
  changes (c.drive now target).2 = []
  := by
  unfold drive
  split
  · rfl
  · rfl

/-- A turn tells about the failsafe when it is not as it was told about last. -/
theorem changes_turn (c : Control) (s : Surroundings) :
  changes (c.turn s).2 = news (c.failsafeSeen = .active) (c.turn s).1.failsafe.isActive
  := by
  have hseen : (c.stabilized s).failsafeSeen = c.failsafeSeen := by
    show (c.noted s).failsafeSeen = _
    rw [noted_eq]
  rw [← changes_motions, motions_turn, changes_append, changes_motions, changes_motions,
    changes_guard, changes_drive, List.append_nil, hseen, turn_frame]
  rfl

theorem turn_failsafeSeen (c : Control) (s : Surroundings) :
  (c.turn s).1.failsafeSeen = (c.turn s).1.failsafe.state
  := by rw [turn_frame]

/-! ### What has been told -/

/-- What has been told about the alarm agrees with the failsafe: it was told in turns that
it had begun and that it was over, and the last word is the truth. -/
structure Told (c : Control) (told : List Bool) : Prop where
  seen : c.failsafeSeen = c.failsafe.state
  alternate : (false :: told).IsChain (· ≠ ·)
  last : told.getLast?.getD false = c.failsafe.isActive

theorem told_ofSettings (t : Settings) :
  (ofSettings t).Told []
  := ⟨rfl, List.isChain_singleton false, rfl⟩

/-- What does not touch the failsafe and tells nothing about it makes no difference. -/
theorem Told.congr {told : List Bool} (h : c.Told told) {c' : Control}
    (hf : c'.failsafe = c.failsafe) (hs : c'.failsafeSeen = c.failsafeSeen) :
  c'.Told told
  := by
  obtain ⟨hseen, hchain, hlast⟩ := h
  constructor
  · rw [hs, hf, hseen]
  · exact hchain
  · rw [hf, hlast]

/-- The news keep alternating, and bring what has been told up to date. -/
theorem alternate_news {told : List Bool} {before : Bool}
    (h : (false :: told).IsChain (· ≠ ·)) (hl : told.getLast?.getD false = before)
    (after : Bool) :
  (false :: (told ++ news before after)).IsChain (· ≠ ·) ∧
    (told ++ news before after).getLast?.getD false = after
  := by
  unfold news
  split
  · rename_i he
    rw [List.append_nil, he]
    exact ⟨h, hl⟩
  · rename_i hne
    constructor
    · rw [← List.cons_append, List.isChain_append]
      use h, List.isChain_singleton after
      intro x hx y hy
      cases hy
      have hlast : (false :: told).getLast? = some (told.getLast?.getD false) :=
        List.getLast?_cons
      rw [hlast, hl] at hx
      cases hx
      exact Ne.symm hne
    · rw [List.getLast?_concat]
      rfl

theorem Told.turn {told : List Bool} (h : c.Told told) (s : Surroundings) :
  (c.turn s).1.Told (told ++ changes (c.turn s).2)
  := by
  have hb : told.getLast?.getD false = decide (c.failsafeSeen = .active) := by
    rw [h.last, h.seen]
    rfl
  rw [changes_turn]
  obtain ⟨hchain, hlast⟩ := alternate_news h.alternate hb (c.turn s).1.failsafe.isActive
  exact ⟨turn_failsafeSeen c s, hchain, hlast⟩

/-- A request does not touch the failsafe. -/
theorem Told.response {told : List Bool} (h : c.Told told) {c' : Control} {d : Delivery}
    {effects : List Effect} (hr : Response c d c' effects) :
  c'.Told (told ++ changes effects)
  := by
  rw [changes_of_still hr.still, List.append_nil]
  rw [hr.eq_withMotion]
  exact h.congr rfl rfl

/-- A start does not either. -/
theorem Told.start {told : List Bool} (h : c.Told told) (s : Startup) :
  (c.start s).2.1.Told (told ++ changes (c.start s).2.2)
  := by
  obtain ⟨-, hl⟩ | ⟨hc, hp⟩ := start_cases c s
  · rw [hl, ← changes_motions, motions_launch, launch_frame]
    rw [show changes [.neutral] = [] from rfl, List.append_nil]
    exact h.congr rfl rfl
  · rw [hc, changes_of_still fun e he => (hp e he).1, List.append_nil]
    exact h

end Control

/-! ### Runs -/

namespace Car

/-- Every operation but a renewal of the control loop keeps what has been told in agreement
with the failsafe. -/
theorem told_perform {car : Car} {told : List Bool} (h : car.control.Told told)
    {op : Operation} (hop : ∀ u, op ≠ .renew u) :
  (car.perform op).1.Told (told ++ changes (car.perform op).2)
  := by
  cases op with
  | renew u => cases hop u rfl
  | start s => exact h.start _
  | turn s => exact h.turn s
  | calibrateForward => exact h.response (Control.calibrateForward_response _ 0 none)
  | setForward v fault => exact h.response (Control.setForward_response _ v 0 fault)
  | retune t keep fault => exact h.response (Control.retune_response _ t keep 0 fault)

theorem told_after (t : Settings) (stored : Option (CalibrationData Float32))
    {run : List Operation} (h : ∀ u, .renew u ∉ run) :
  ((⟨.ofSettings t, stored⟩ : Car).after run).control.Told
    (changes ((⟨.ofSettings t, stored⟩ : Car).effects run))
  := by
  apply of_perform (P := fun c effects => c.Told (changes effects))
  · exact Control.told_ofSettings t
  · intro car op effects hop htold
    rw [changes_append]
    exact told_perform htold hop
  · exact h

end Car

/-- Over every run of updates, changes of the timeout and resets, an update without an
active source leaves the failsafe active exactly if it was so, or if the timeout has passed
since the last active source; only an update with one, or a reset, ends the alarm; and until
a reset, the state tells whether one or more updates with an active source have come since
the last alarm.  Over every run of a control loop, its notices of the alarm alternate, from
a beginning on, and the last one is the truth. -/
theorem alarm_over_runs (timeout : Millis) (run : List Failsafe.Operation) (t : Settings)
    (stored : Option (CalibrationData Float32)) {ops : List Operation}
    (h : ∀ u, .renew u ∉ ops) :
  (∀ now,
    ((Failsafe.fresh timeout).after (run ++ [.update now false false])).isActive ↔
      ((Failsafe.fresh timeout).after run).isActive ∨
        Failsafe.timeoutAfter timeout run ≤ now - Failsafe.lastActive run) ∧
  (∀ more, ((Failsafe.fresh timeout).after run).isActive → (∀ op ∈ more, ¬ op.Ends) →
    ((Failsafe.fresh timeout).after (run ++ more)).isActive) ∧
  (((Failsafe.fresh timeout).after run).state = .recovering ↔
    ∃ before since, before ++ since = run ∧
      (Failsafe.fresh timeout).LastAlarm before since ∧
      (Failsafe.activeTimes since).length = 1) ∧
  (∀ before since, before ++ since = run → ((Failsafe.fresh timeout).after before).isActive →
    .reset ∉ since →
      (((Failsafe.fresh timeout).after run).state = .inactive ↔
        ∃ before' since', before' ++ since' = run ∧
          (Failsafe.fresh timeout).LastAlarm before' since' ∧
          2 ≤ (Failsafe.activeTimes since').length)) ∧
  (false :: changes ((⟨.ofSettings t, stored⟩ : Car).effects ops)).IsChain (· ≠ ·) ∧
  (changes ((⟨.ofSettings t, stored⟩ : Car).effects ops)).getLast?.getD false =
    ((⟨.ofSettings t, stored⟩ : Car).after ops).control.failsafe.isActive
  := by
  have htold := Car.told_after t stored h
  refine ⟨?_, ?_, ?_, ?_, htold.alternate, htold.last⟩
  · intro now
    rw [Failsafe.after_concat, Failsafe.perform, Failsafe.isActive_update_iff,
      Failsafe.silence_after rfl, Failsafe.after_timeout]
    rfl
  · intro more ha hm
    rw [Failsafe.after_append]
    exact Failsafe.isActive_after ha hm
  · exact Failsafe.recovering_after_iff rfl run
  · rintro before since rfl ha hr
    exact Failsafe.inactive_after_iff ha hr

/-- A second of silence, and then a command. -/
def silentSecond : List Operation :=
  [.start .plain, .turn (Moment.plain 2000 none).toSurroundings,
    .turn (Moment.plain 2020 (some (.clamped 0.5 0.2))).toSurroundings]

theorem alarm_over_silentSecond :
  changes ((⟨.ofSettings {}, none⟩ : Car).effects silentSecond) = [true, false] ∧
    ¬ ((⟨.ofSettings {}, none⟩ : Car).after silentSecond).control.failsafe.isActive ∧
    ∀ now : Millis, ((Failsafe.fresh 250).after [.update now false false]).isActive ↔ 250 ≤ now
  := by
  have h : ∀ u, .renew u ∉ silentSecond := by
    intro u hu
    simp [silentSecond] at hu
  have hchanges : changes ((⟨.ofSettings {}, none⟩ : Car).effects silentSecond)
      = [true, false] := by decide +kernel
  obtain ⟨hupdate, -, -, -, -, hlast⟩ := alarm_over_runs 250 [] {} none h
  use hchanges
  constructor
  · rw [← hlast, hchanges]
    decide
  · intro now
    have hfirst := hupdate now
    rw [List.nil_append] at hfirst
    rw [hfirst]
    simp [Failsafe.fresh, Failsafe.after, Failsafe.isActive, Failsafe.timeoutAfter,
      Failsafe.lastActive, Failsafe.sinceReset, Failsafe.activeTimes]

end ModelCar
