import Mathlib.Data.List.DropRight
import Mathlib.Logic.Function.Iterate
import ModelCar.Failsafe
import ModelCar.Proofs.Clock

/-!
# The failsafe over its updates

An update with an active source keeps its time and makes the failsafe inactive in two
steps.  Without one, the failsafe is active as soon as its timeout has passed since the
time that was kept.  So over any run of updates, changes of the timeout and resets the
failsafe knows the last time of an active source, and its state tells how many updates
with an active source have come since it was last active.
-/

namespace ModelCar

namespace Failsafe

theorem update_timeout (f : Failsafe) (now : Millis) (radio wireless : Bool) :
  (f.update now radio wireless).timeout = f.timeout
  := by
  unfold update
  split
  · rfl
  · split
    · rfl
    · rfl

/-- The failsafe keeps the time of an update with an active source. -/
theorem update_last (f : Failsafe) (now : Millis) (radio wireless : Bool) :
  (f.update now radio wireless).last = if radio || wireless then some now else f.last
  := by
  unfold update
  split
  · rfl
  · split
    · rfl
    · rfl

/-- Once the timeout has passed, an update without an active source finds the failsafe
active. -/
theorem update_silent {f : Failsafe} {t u : Nat} (hl : f.last = some (.ofTime u))
    (h : u ≤ t) (hf : f.timeout.toNat ≤ (t - u) % 2 ^ 32) :
  (f.update (.ofTime t) false false).state = .active
  := by
  have hs : f.timeout ≤ f.silence (.ofTime t) := by
    rw [silence, hl, Option.getD_some, Millis.le_ofTime_sub_iff h]
    exact hf
  simp [update, hs]

/-- An update without an active source leaves the failsafe active if it was so, or if the
timeout has passed. -/
theorem isActive_update_iff (f : Failsafe) (now : Millis) :
  (f.update now false false).isActive ↔ f.isActive ∨ f.timeout ≤ f.silence now
  := by
  simp only [update, Bool.or_self, Bool.false_eq_true, if_false]
  split
  · rename_i h
    simp only [h, or_true, iff_true]
    rfl
  · rename_i h
    simp only [h, or_false]

/-- An update with an active source changes the state by a step of recovery. -/
theorem state_update_of_source (f : Failsafe) (now : Millis) {radio wireless : Bool}
    (h : (radio || wireless) = true) :
  (f.update now radio wireless).state = f.state.recover
  := by rw [update, if_pos h]

/-- An update without one changes the state only to the active one. -/
theorem isActive_or_eq_of_no_source (f : Failsafe) (now : Millis) {radio wireless : Bool}
    (h : ¬ (radio || wireless) = true) :
  (f.update now radio wireless).isActive ∨ f.update now radio wireless = f
  := by
  rw [update, if_neg h]
  split
  · left
    rfl
  · right
    rfl

/-! ### Runs -/

/-- Something that is done with a failsafe. -/
inductive Operation where
  | update (now : Millis) (radioActive wirelessActive : Bool)
  | setTimeout (timeout : Millis)
  | reset
deriving DecidableEq

/-- The time of an update with an active source. -/
def Operation.activeTime? : Operation → Option Millis
  | .update now radio wireless => if radio || wireless then some now else none
  | _ => none

/-- The timeout that an operation sets. -/
def Operation.timeout? : Operation → Option Millis
  | .setTimeout timeout => some timeout
  | _ => none

/-- The times of the updates with an active source in a run. -/
def activeTimes (run : List Operation) : List Millis :=
  run.filterMap Operation.activeTime?

/-- The part of a run since the last reset. -/
def sinceReset (run : List Operation) : List Operation :=
  run.rtakeWhile (· ≠ .reset)

/-- The last time of an active source since the last reset, zero if there was none. -/
def lastActive (run : List Operation) : Millis :=
  (activeTimes (sinceReset run)).getLast?.getD 0

/-- The timeout after a run. -/
def timeoutAfter (timeout : Millis) (run : List Operation) : Millis :=
  (run.filterMap Operation.timeout?).getLast?.getD timeout

/-- The failsafe when it is made. -/
def fresh (timeout : Millis) : Failsafe :=
  { timeout }

/-- The failsafe after an operation. -/
def perform (f : Failsafe) : Operation → Failsafe
  | .update now radio wireless => f.update now radio wireless
  | .setTimeout timeout => f.setTimeout timeout
  | .reset => f.reset

/-- The failsafe after a run of operations. -/
def after (f : Failsafe) (run : List Operation) : Failsafe :=
  run.foldl perform f

theorem after_append (f : Failsafe) (run more : List Operation) :
  f.after (run ++ more) = (f.after run).after more
  := List.foldl_append

theorem after_concat (f : Failsafe) (run : List Operation) (op : Operation) :
  f.after (run ++ [op]) = (f.after run).perform op
  := f.after_append run [op]

theorem activeTimes_concat (run : List Operation) (op : Operation) :
  activeTimes (run ++ [op]) = activeTimes run ++ op.activeTime?.toList
  := by
  rw [activeTimes, List.filterMap_append, activeTimes]
  cases h : op.activeTime? with
  | none => simp [h]
  | some now => simp [h]

theorem perform_timeout (f : Failsafe) (op : Operation) :
  (f.perform op).timeout = op.timeout?.getD f.timeout
  := by
  cases op with
  | update now radio wireless => exact update_timeout f now radio wireless
  | setTimeout timeout => rfl
  | reset => rfl

/-- The timeout is the one that was set last. -/
theorem after_timeout (f : Failsafe) (run : List Operation) :
  (f.after run).timeout = timeoutAfter f.timeout run
  := by
  induction run using List.reverseRecOn with
  | nil => rfl
  | append_singleton run op ih =>
      rw [after_concat, perform_timeout, ih, timeoutAfter, timeoutAfter,
        List.filterMap_append]
      cases h : op.timeout? with
      | none => simp [h]
      | some timeout => simp [h]

theorem perform_last (f : Failsafe) {op : Operation} (h : op ≠ .reset) :
  (f.perform op).last = (op.activeTime? <|> f.last)
  := by
  cases op with
  | update now radio wireless =>
      rw [perform, update_last, Operation.activeTime?]
      split
      · rfl
      · rfl
  | setTimeout timeout => rfl
  | reset => contradiction

/-- The failsafe keeps the last time of an active source since the last reset. -/
theorem after_last {f : Failsafe} (hf : f.last = none) (run : List Operation) :
  (f.after run).last = (activeTimes (sinceReset run)).getLast?
  := by
  induction run using List.reverseRecOn with
  | nil => exact hf
  | append_singleton run op ih =>
      rw [after_concat, sinceReset, List.rtakeWhile_concat]
      by_cases h : op = .reset
      · subst h
        rfl
      · rw [perform_last _ h, ih, if_pos (by simpa using h), activeTimes_concat, sinceReset]
        cases op.activeTime? with
        | none => simp
        | some now => simp

theorem silence_after {f : Failsafe} (hf : f.last = none) (run : List Operation)
    (now : Millis) :
  (f.after run).silence now = now - lastActive run
  := by rw [silence, after_last hf, lastActive]

/-! ### The alarm -/

/-- An operation that can end the alarm: an update with an active source, or a reset. -/
def Operation.Ends (op : Operation) : Prop :=
  op.activeTime? ≠ none ∨ op = .reset

/-- Nothing else does so. -/
theorem isActive_perform {f : Failsafe} (hf : f.isActive) {op : Operation} (h : ¬ op.Ends) :
  (f.perform op).isActive
  := by
  obtain ⟨ht, hr⟩ := not_or.mp h
  cases op with
  | update now radio wireless =>
      have hs : ¬ (radio || wireless) = true := by
        intro hs
        apply ht
        simp [Operation.activeTime?, hs]
      obtain ha | he := isActive_or_eq_of_no_source f now hs
      · exact ha
      · rw [perform, he]
        exact hf
  | setTimeout timeout => exact hf
  | reset => contradiction

/-- Once active, the failsafe stays so until an update with an active source or a reset. -/
theorem isActive_after {f : Failsafe} (hf : f.isActive) {run : List Operation}
    (h : ∀ op ∈ run, ¬ op.Ends) :
  (f.after run).isActive
  := by
  induction run generalizing f with
  | nil => exact hf
  | cons op run ih =>
      obtain ⟨hop, hrun⟩ := List.forall_mem_cons.mp h
      exact ih (isActive_perform hf hop) hrun

/-- The failsafe was active after the first part of a run, and never after more of it;
there was no reset since. -/
structure LastAlarm (f : Failsafe) (before since : List Operation) : Prop where
  isActive : (f.after before).isActive
  not_isActive : ∀ part ≠ [], part <+: since → ¬ (f.after (before ++ part)).isActive
  no_reset : .reset ∉ since

theorem LastAlarm.init {f : Failsafe} {before since : List Operation} {op : Operation}
    (h : f.LastAlarm before (since ++ [op])) :
  f.LastAlarm before since
  := by
  constructor
  · exact h.isActive
  · intro part hne hp
    exact h.not_isActive part hne (hp.trans (List.prefix_append since [op]))
  · intro hr
    exact h.no_reset (List.mem_append_left _ hr)

/-- Since the last alarm every update with an active source has been a step of recovery,
and nothing else has changed the state. -/
theorem LastAlarm.state_eq {f : Failsafe} {before since : List Operation}
    (h : f.LastAlarm before since) :
  (f.after (before ++ since)).state = State.recover^[(activeTimes since).length] .active
  := by
  induction since using List.reverseRecOn with
  | nil =>
      rw [List.append_nil]
      exact of_decide_eq_true h.isActive
  | append_singleton since op ih =>
      have hn : ¬ ((f.after (before ++ since)).perform op).isActive := by
        rw [← after_concat, List.append_assoc]
        apply h.not_isActive _ (by simp) (List.prefix_refl _)
      rw [← List.append_assoc, after_concat, activeTimes_concat]
      cases op with
      | update now radio wireless =>
          by_cases hs : (radio || wireless) = true
          · rw [perform, state_update_of_source _ _ hs, ih h.init]
            simp [Operation.activeTime?, hs, Function.iterate_succ_apply']
          · obtain ha | he := isActive_or_eq_of_no_source (f.after (before ++ since)) now hs
            · contradiction
            · rw [perform, he, ih h.init]
              simp [Operation.activeTime?, hs]
      | setTimeout timeout =>
          simp only [Operation.activeTime?, Option.toList_none, List.append_nil]
          exact ih h.init
      | reset => cases h.no_reset (List.mem_append_right _ (List.mem_singleton_self _))

/-- Two steps of recovery lead from the alarm to the inactive state, and no further. -/
theorem iterate_recover (n : Nat) :
  State.recover^[n + 2] .active = .inactive
  := Function.iterate_fixed rfl n

theorem iterate_recover_iff (n : Nat) :
  (State.recover^[n] .active = .recovering ↔ n = 1) ∧
    (State.recover^[n] .active = .inactive ↔ 2 ≤ n)
  := by
  match n with
  | 0 => decide
  | 1 => decide
  | n + 2 =>
      rw [iterate_recover]
      simp

/-- After an alarm without a reset there is a last one. -/
theorem exists_lastAlarm {f : Failsafe} {before since : List Operation}
    (ha : (f.after before).isActive) (hr : .reset ∉ since) :
  ∃ before' since', before' ++ since' = before ++ since ∧ f.LastAlarm before' since'
  := by
  induction since using List.reverseRecOn with
  | nil =>
      use before, [], rfl
      constructor
      · exact ha
      · intro part hne hp
        cases hne (List.prefix_nil.mp hp)
      · exact List.not_mem_nil
  | append_singleton since op ih =>
      obtain ⟨hr, hop⟩ := not_or.mp (mt List.mem_append.mpr hr)
      obtain ⟨before', since', he, hl⟩ := ih hr
      by_cases hn : (f.after (before ++ (since ++ [op]))).isActive
      · use before ++ (since ++ [op]), [], List.append_nil _
        constructor
        · exact hn
        · intro part hne hp
          cases hne (List.prefix_nil.mp hp)
        · exact List.not_mem_nil
      · use before', since' ++ [op]
        constructor
        · rw [← List.append_assoc, he, List.append_assoc]
        · constructor
          · exact hl.isActive
          · intro part hne hp
            obtain rfl | hp := List.prefix_concat_iff.mp hp
            · rwa [← List.append_assoc, he, List.append_assoc]
            · exact hl.not_isActive part hne hp
          · intro hm
            obtain hm | hm := List.mem_append.mp hm
            · exact hl.no_reset hm
            · exact hop hm

/-- A failsafe that is recovering has been active, without a reset since. -/
theorem exists_isActive_of_recovering {f : Failsafe} (hf : f.state = .inactive)
    {run : List Operation} (h : (f.after run).state = .recovering) :
  ∃ before since, before ++ since = run ∧ (f.after before).isActive ∧ .reset ∉ since
  := by
  induction run using List.reverseRecOn with
  | nil =>
      rw [after, List.foldl_nil, hf] at h
      cases h
  | append_singleton run op ih =>
      -- Where the state stays as it is, it was reached before.
      have hkept (hs : (f.after run).state = .recovering) (hop : op ≠ .reset) :
          ∃ before since, before ++ since = run ++ [op] ∧ (f.after before).isActive ∧
            .reset ∉ since := by
        obtain ⟨before, since, rfl, ha, hr⟩ := ih hs
        use before, since ++ [op]
        simp [ha, hr, hop.symm]
      rw [after_concat] at h
      cases op with
      | update now radio wireless =>
          by_cases hs : (radio || wireless) = true
          · use run, [.update now radio wireless], rfl
            rw [perform, state_update_of_source _ _ hs] at h
            refine ⟨?_, by simp⟩
            cases ha : (f.after run).state with
            | active => simp [isActive, ha]
            | inactive => simp [ha, State.recover] at h
            | recovering => simp [ha, State.recover] at h
          · obtain ha | he := isActive_or_eq_of_no_source (f.after run) now hs
            · rw [perform, of_decide_eq_true ha] at h
              cases h
            · rw [perform, he] at h
              exact hkept h (by simp)
      | setTimeout timeout => exact hkept h (by simp)
      | reset => cases h

/-- Recovering means that there has been one update with an active source since the last
alarm. -/
theorem recovering_after_iff {f : Failsafe} (hf : f.state = .inactive)
    (run : List Operation) :
  (f.after run).state = .recovering ↔
    ∃ before since, before ++ since = run ∧ f.LastAlarm before since ∧
      (activeTimes since).length = 1
  := by
  constructor
  · intro h
    obtain ⟨before, since, rfl, ha, hr⟩ := exists_isActive_of_recovering hf h
    obtain ⟨before', since', he, hl⟩ := exists_lastAlarm ha hr
    use before', since', he, hl
    rwa [← he, hl.state_eq, (iterate_recover_iff _).1] at h
  · rintro ⟨before, since, rfl, hl, hn⟩
    rw [hl.state_eq, (iterate_recover_iff _).1]
    exact hn

/-- After an alarm without a reset, the failsafe is inactive again when there have been at
least two updates with an active source since the last alarm. -/
theorem inactive_after_iff {f : Failsafe} {before since : List Operation}
    (ha : (f.after before).isActive) (hr : .reset ∉ since) :
  (f.after (before ++ since)).state = .inactive ↔
    ∃ before' since', before' ++ since' = before ++ since ∧ f.LastAlarm before' since' ∧
      2 ≤ (activeTimes since').length
  := by
  constructor
  · intro h
    obtain ⟨before', since', he, hl⟩ := exists_lastAlarm ha hr
    use before', since', he, hl
    rwa [← he, hl.state_eq, (iterate_recover_iff _).2] at h
  · rintro ⟨before', since', he, hl, hn⟩
    rw [← he, hl.state_eq, (iterate_recover_iff _).2]
    exact hn

end Failsafe

end ModelCar
