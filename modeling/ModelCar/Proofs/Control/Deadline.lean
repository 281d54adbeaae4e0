import ModelCar.Proofs.Control.Course
import ModelCar.Proofs.Drive.Actuators

/-!
# The deadline of the failsafe

When no source gives commands any more, the car comes to rest in time.  A source stays
active for less than its interval or timeout after its last command, and the failsafe
waits for its own timeout after that.  So at a turn whose last commands are older than
both together the failsafe is active, the actuators are at rest, and nothing else than
rest has been sent to them.
-/

namespace ModelCar.Control

variable {c : Control}

/-! ### Under the failsafe -/

theorem guard_of_failsafe_active {s : Surroundings} (hf : (c.turn s).1.failsafe.isActive) :
  ((c.stabilized s).failsafe.update s.now (c.stabilized s).radio.isActive
    (c.stabilized s).wireless.isActive).isActive
  := by rwa [turn_frame, guarded, guard_eq] at hf

/-- A turn that ends with an active failsafe has made the command neutral and brought
the actuators to rest. -/
theorem turn_of_failsafe_active {s : Surroundings} (hf : (c.turn s).1.failsafe.isActive) :
  (c.turn s).1.commanded = .neutral ∧ .neutral ∈ (c.turn s).2
  := by
  have hg := guard_of_failsafe_active hf
  constructor
  · rw [turn_frame, guarded, guard_of_active _ _ hg]
  · apply (mem_turn_of_moves c s (e := .neutral) trivial).mpr
    left
    rw [guard_of_active _ _ hg]
    simp

/-- Actuators at rest that are driven towards neutral stay at rest, if their speeds are
not negative, and only rest is sent to them. -/
theorem drive_neutral_of_atRest (now : Millis) (h : c.actuators.AtRest)
    (hthrottle : ¬ c.settings.throttleSpeed < 0.0)
    (hsteering : ¬ c.settings.steeringSpeed < 0.0) :
  (c.drive now .neutral).1.actuators.AtRest ∧
    ∀ throttle steering, .drive throttle steering ∈ (c.drive now .neutral).2 →
      throttle = 0.0 ∧ steering = 0.0
  := by
  unfold drive
  split
  · use h
    intro throttle steering he
    cases he
  · rename_i actuators ha
    have hrest : actuators.AtRest := h.follow hthrottle hsteering ha
    use hrest
    intro throttle steering he
    cases List.mem_singleton.mp he
    exact hrest

/-- Such a turn ends with actuators at rest, and sends nothing else to them. -/
theorem atRest_of_failsafe_active {s : Surroundings}
    (hthrottle : ¬ c.settings.throttleSpeed < 0.0)
    (hsteering : ¬ c.settings.steeringSpeed < 0.0) (hf : (c.turn s).1.failsafe.isActive) :
  (c.turn s).1.actuators.AtRest ∧
    ∀ throttle steering, .drive throttle steering ∈ (c.turn s).2 →
      throttle = 0.0 ∧ steering = 0.0
  := by
  have hg := guard_of_failsafe_active hf
  have hgoal : c.goal s = .neutral := by
    rw [goal, guard_of_active _ _ hg]
  have hstopped : (c.guarded s).actuators.AtRest := by
    rw [guarded, guard_of_active _ _ hg]
    apply Actuators.atRest_stopped
  have hsettings : (c.guarded s).settings = c.settings := by
    rw [← turn_settings c s, turn_frame, guarded, guard_eq]
    rfl
  rw [← hsettings] at hthrottle hsteering
  obtain ⟨hrest, hdrive⟩ :=
    drive_neutral_of_atRest s.now hstopped hthrottle hsteering
  rw [← hgoal] at hrest hdrive
  constructor
  · rw [turn_frame]
    exact hrest
  · intro throttle steering he
    have hm : (Effect.drive throttle steering).Moves := trivial
    obtain he | he := (mem_turn_of_moves c s hm).mp he
    · obtain ⟨n, he⟩ | ⟨active, he⟩ | he := mem_guard _ he
      · cases he
      · cases he
      · cases he
    · apply hdrive _ _ he

/-! ### Until when sources are active -/

/-- A source that is active has given a command at this turn, or less than its interval
or timeout ago. -/
theorem source_origin (hc : c.Fresh) {run : List Moment} {m : Moment}
    (hin : InOrder Moment.time (run ++ [m]))
    (h : (c.after (run ++ [m])).hasSource) :
  (∃ t ≤ m.time, (c.heard (run ++ [m])).getLast? = some t ∧
      ((c.after run).radio.hears m.radioReading ∧ t = m.time ∨
        (m.time - t) % 2 ^ 32 < c.radio.pace.interval.toNat)) ∨
    ∃ t ≤ m.time, (taken (run ++ [m])).getLast? = some t ∧
      (m.time - t) % 2 ^ 32 < c.wireless.timeout.toNat
  := by
  obtain h | h := Bool.or_eq_true_iff.mp h
  · left
    have hx : ∀ y ∈ run.map Moment.radioReading, y.time ≤ m.radioReading.time :=
      hin.le_last_map fun _ => rfl
    rw [after_radio, List.map_append] at h
    rw [heard, List.map_append, after_radio]
    apply Radio.age_lt_of_isActive hc.radio_command hx h
  · right
    have hx : ∀ y ∈ run.map Moment.wirelessReading, y.time ≤ m.wirelessReading.time :=
      hin.le_last_map fun _ => rfl
    rw [after_wireless, List.map_append] at h
    obtain ⟨p, hp, hlt⟩ := (Wireless.isActive_after_concat_iff hc.wireless_last hx).mp h
    use p.2, Wireless.taken_time_le hx (List.mem_of_getLast? hp)
    rw [taken, List.map_append, List.getLast?_map]
    use Option.map_eq_some_iff.mpr ⟨p, hp, rfl⟩
    exact hlt

/-- Without an active source no command was heard at this turn, and none was taken,
unless the timeout is zero. -/
theorem silence_of_not_hasSource (hc : c.Fresh) {run : List Moment} {m : Moment}
    (hin : InOrder Moment.time (run ++ [m]))
    (h : ¬ (c.after (run ++ [m])).hasSource) :
  ¬ (c.after run).radio.hears m.radioReading ∧
    (m.wireless = none ∨ c.wireless.timeout.toNat = 0)
  := by
  obtain ⟨hr, hl⟩ := not_or.mp (mt Bool.or_eq_true_iff.mpr h)
  constructor
  · intro ⟨hp, hc⟩
    have hp : (c.after run).radio.polls (.ofTime m.time) := hp
    apply hr
    rw [after_concat, next, turn_radio, m.now_eq, Radio.update_of_polls hp]
    exact hc
  · cases hm : m.wireless with
    | none =>
        left
        rfl
    | some command =>
        right
        have hx : ∀ y ∈ run.map Moment.wirelessReading,
            y.time ≤ m.wirelessReading.time :=
          hin.le_last_map fun _ => rfl
        rw [after_wireless, List.map_append] at hl
        by_contra hpos
        apply hl
        apply (Wireless.isActive_after_concat_iff hc.wireless_last hx).mpr
        use (command, m.time)
        rw [Wireless.taken_append]
        constructor
        · simp [Wireless.taken, Moment.wirelessReading, hm]
        · simp [Moment.wirelessReading]
          omega

theorem heard_concat (c : Control) (run : List Moment) (m : Moment) :
  c.heard (run ++ [m]) =
    c.heard run ++ if (c.after run).radio.hears m.radioReading then [m.time] else []
  := by
  rw [heard, List.map_append, after_radio]
  apply Radio.heard_concat

theorem taken_concat (run : List Moment) (m : Moment) :
  taken (run ++ [m]) = taken run ++ if m.wireless.isSome then [m.time] else []
  := by
  rw [taken, List.map_append, Wireless.taken_append, List.map_append, taken]
  cases hm : m.wireless with
  | none => simp [Wireless.taken, Moment.wirelessReading, hm]
  | some command => simp [Wireless.taken, Moment.wirelessReading, hm]

/-- The last active turn came less than the interval of the receiver, or the timeout of
wireless commands, after the last command. -/
theorem last_active_origin (hc : c.Fresh) {run : List Moment}
    (hin : InOrder Moment.time run) {u : Nat}
    (hu : (c.activeTimes run).getLast? = some u) :
  (∃ t ≤ u, (c.heard run).getLast? = some t ∧
      (t = u ∨ (u - t) % 2 ^ 32 < c.radio.pace.interval.toNat)) ∨
    ∃ t ≤ u, (taken run).getLast? = some t ∧
      (u - t) % 2 ^ 32 < c.wireless.timeout.toNat
  := by
  induction run using List.reverseRecOn with
  | nil => cases hu
  | append_singleton run m ih =>
      rw [activeTimes_concat] at hu
      by_cases h : (c.after (run ++ [m])).hasSource
      · rw [if_pos h, List.getLast?_concat, Option.some_inj] at hu
        subst hu
        obtain ⟨t, ht, hl, ho⟩ | ht := source_origin hc hin h
        · left
          use t, ht, hl
          exact ho.imp And.right id
        · right
          exact ht
      · rw [if_neg h, List.append_nil] at hu
        obtain ⟨hh, hn⟩ := silence_of_not_hasSource hc hin h
        obtain ⟨t, ht, hl, ho⟩ | ⟨t, ht, hl, ho⟩ := ih hin.init hu
        · left
          use t, ht
          rw [heard_concat, if_neg hh, List.append_nil]
          use hl, ho
        · right
          use t, ht
          obtain hn | hn := hn
          · rw [taken_concat, hn]
            simp only [Option.isSome_none, Bool.false_eq_true, if_false, List.append_nil]
            use hl, ho
          · omega

/-! ### The deadline -/

/-- At a turn after a run the last commands are older than the deadline: a command that
was heard, by the interval of the receiver and the timeout of the failsafe, one that was
taken, by the timeout of wireless commands and that of the failsafe.  There was a
source, and the clock has not come round since it was last active or gave its last
command. -/
structure Overdue (c : Control) (run : List Moment) (m : Moment) : Prop where
  active : ∃ t, (c.activeTimes run).getLast? = some t ∧ m.time < t + 2 ^ 32
  heard : ∀ t ∈ c.heard (run ++ [m]),
    t + c.settings.radioInterval.toNat + c.settings.failsafeTimeout.toNat ≤ m.time
  taken : ∀ t ∈ taken (run ++ [m]),
    t + c.settings.wirelessTimeout.toNat + c.settings.failsafeTimeout.toNat ≤ m.time
  heard_last : ∀ t, (c.heard (run ++ [m])).getLast? = some t → m.time < t + 2 ^ 32
  taken_last : ∀ t, (Control.taken (run ++ [m])).getLast? = some t → m.time < t + 2 ^ 32

/-- At an overdue turn that hears no command the sources are silent. -/
theorem not_hasSource_of_overdue (hc : c.Fresh) {run : List Moment} {m : Moment}
    (hin : InOrder Moment.time (run ++ [m])) (hd : c.Overdue run m)
    (hh : ¬ (c.after run).radio.hears m.radioReading) :
  ¬ (c.after (run ++ [m])).hasSource
  := by
  intro h
  obtain ⟨t, hle, hl, ho⟩ | ⟨t, hle, hl, ho⟩ := source_origin hc hin h
  · obtain ⟨ho, -⟩ | ho := ho
    · contradiction
    · have hdue := hd.heard t (List.mem_of_getLast? hl)
      have hnear := hd.heard_last t hl
      rw [hc.radio_interval] at ho
      omega
  · have hdue := hd.taken t (List.mem_of_getLast? hl)
    have hnear := hd.taken_last t hl
    rw [hc.wireless_timeout] at ho
    omega

/-- At an overdue turn that hears no command the timeout of the failsafe has passed since
a source was last active. -/
theorem timeout_le_of_overdue (hc : c.Fresh) {run : List Moment} {m : Moment}
    (hin : InOrder Moment.time (run ++ [m])) (hd : c.Overdue run m)
    (hh : ¬ (c.after run).radio.hears m.radioReading) {u : Nat}
    (hu : (c.activeTimes run).getLast? = some u) :
  u ≤ m.time ∧ c.settings.failsafeTimeout.toNat ≤ m.time - u
  := by
  have hum : u ≤ m.time := by
    obtain ⟨n, hn, rfl⟩ := exists_moment_of_mem_activeTimes (List.mem_of_getLast? hu)
    apply hin.le_last n hn
  use hum
  obtain ⟨t, ht, hl, ho⟩ | ⟨t, ht, hl, ho⟩ := last_active_origin hc hin.init hu
  · have hsame : c.heard (run ++ [m]) = c.heard run := by
      rw [heard_concat, if_neg hh, List.append_nil]
    have hdue := hd.heard t (by rw [hsame]; apply List.mem_of_getLast? hl)
    have hnear := hd.heard_last t (by rw [hsame]; exact hl)
    rw [hc.radio_interval] at ho
    omega
  · rw [hc.wireless_timeout] at ho
    have hsame : Control.taken (run ++ [m]) = Control.taken run := by
      rw [taken_concat]
      split
      · -- A command taken at this turn leaves no time for any timeout.
        have hdue := hd.taken m.time (by rw [taken_concat, if_pos ‹_›]; simp)
        omega
      · apply List.append_nil
    have hdue := hd.taken t (by rw [hsame]; apply List.mem_of_getLast? hl)
    have hnear := hd.taken_last t (by rw [hsame]; exact hl)
    omega

theorem failsafe_active_of_overdue (hc : c.Fresh) {run : List Moment} {m : Moment}
    (hin : InOrder Moment.time (run ++ [m])) (hd : c.Overdue run m)
    (hh : ¬ (c.after run).radio.hears m.radioReading) :
  (c.after (run ++ [m])).failsafe.isActive
  := by
  have hs := not_hasSource_of_overdue hc hin hd hh
  obtain ⟨hr, hw⟩ := Bool.or_eq_false_iff.mp (Bool.eq_false_iff.mpr hs)
  obtain ⟨u, hu, hnear⟩ := hd.active
  obtain ⟨hum, hwait⟩ := timeout_le_of_overdue hc hin hd hh hu
  have hl : (c.after run).failsafe.last = some (.ofTime u) := by
    rw [after_failsafe_last hc.failsafe_last, hu]
    rfl
  have ha : ((c.after run).failsafe.update (.ofTime m.time) false false).state = .active := by
    apply Failsafe.update_silent hl hum
    rw [after_failsafe_timeout, hc.failsafe_timeout, Nat.mod_eq_of_lt (by omega)]
    exact hwait
  rw [after_concat] at hr hw ⊢
  unfold next at hr hw ⊢
  rw [turn_failsafe, hr, hw, m.now_eq, Failsafe.isActive, ha]
  rfl

/-- When control is lost, the car is at rest by the deadline: at an overdue turn that
hears no command itself the failsafe is active, the command is neutral, the actuators
are at rest, they are brought to rest in this very turn, and nothing else is sent to
them. -/
theorem rest_by_deadline (s : Startup) (σ : Settings)
    (hthrottle : ¬ σ.throttleSpeed < 0.0) (hsteering : ¬ σ.steeringSpeed < 0.0)
    {run : List Moment} {m : Moment} (hin : InOrder Moment.time (run ++ [m]))
    (hd : (begun s σ).Overdue run m)
    (hh : ¬ ((begun s σ).after run).radio.hears m.radioReading) :
  ((begun s σ).after (run ++ [m])).failsafe.state = .active ∧
    ((begun s σ).after (run ++ [m])).commanded = .neutral ∧
    ((begun s σ).after (run ++ [m])).actuators.AtRest ∧
    .neutral ∈ (((begun s σ).after run).turn m.toSurroundings).2 ∧
    ∀ throttle steering,
      .drive throttle steering ∈ (((begun s σ).after run).turn m.toSurroundings).2 →
        throttle = 0.0 ∧ steering = 0.0
  := by
  have hf := failsafe_active_of_overdue (begun_fresh s σ) hin hd hh
  have hset : ((begun s σ).after run).settings = σ := by
    rw [after_settings, begun_settings]
  rw [after_concat] at hf ⊢
  obtain ⟨hcommand, hneutral⟩ := turn_of_failsafe_active hf
  rw [← hset] at hthrottle hsteering
  obtain ⟨hrest, hdrive⟩ := atRest_of_failsafe_active hthrottle hsteering hf
  use of_decide_eq_true hf, hcommand, hrest, hneutral

/-! ### Runs of a few turns -/

/-- A run of one turn, at which the receiver finds a command. -/
def oneCommand : List Moment :=
  [Moment.plain 1000 (some (.clamped 0.5 0.2))]

/-- A second after its last command, a car with the usual settings is at rest. -/
theorem rest_after_second :
  ∃ (s : Startup) (σ : Settings) (run : List Moment) (m : Moment),
    ¬ σ.throttleSpeed < 0.0 ∧ ¬ σ.steeringSpeed < 0.0 ∧
      InOrder Moment.time (run ++ [m]) ∧ (begun s σ).Overdue run m ∧
      ¬ ((begun s σ).after run).radio.hears m.radioReading ∧
      ((begun s σ).after (run ++ [m])).actuators.AtRest
  := by
  have hactive : (begun .plain {}).activeTimes oneCommand = [1000] := by decide +kernel
  have hheard : (begun .plain {}).heard (oneCommand ++ [Moment.plain 2000 none]) = [1000] :=
    by decide +kernel
  have htaken : Control.taken (oneCommand ++ [Moment.plain 2000 none]) = [] := by
    decide +kernel
  have hd : (begun .plain {}).Overdue oneCommand (Moment.plain 2000 none) := by
    constructor
    · rw [hactive]
      use 1000
      decide
    · rw [hheard]
      decide +kernel
    · rw [htaken]
      decide +kernel
    · rw [hheard]
      decide
    · rw [htaken]
      decide
  have hin : InOrder Moment.time (oneCommand ++ [Moment.plain 2000 none]) := by decide
  have hh : ¬ ((begun .plain {}).after oneCommand).radio.hears
      (Moment.plain 2000 none).radioReading := by
    decide +kernel
  have hspeed : ¬ ({} : Settings).throttleSpeed < 0.0 := by decide
  have hsteer : ¬ ({} : Settings).steeringSpeed < 0.0 := by decide
  have hrest := rest_by_deadline .plain {} hspeed hsteer hin hd hh
  exact ⟨_, _, _, _, hspeed, hsteer, hin, hd, hh, hrest.2.2.1⟩

/-- With an interval and a timeout of zero, a command is not older than the deadline only
after its own turn; and it does not help that the receiver was polled lately if the clock
has come round to within its interval since it last heard a command: the poll is put off,
and the old command keeps the receiver active. -/
theorem not_active_by_deadline :
  (∃ (s : Startup) (σ : Settings) (run : List Moment) (m : Moment),
    ¬ σ.throttleSpeed < 0.0 ∧ ¬ σ.steeringSpeed < 0.0 ∧
      InOrder Moment.time (run ++ [m]) ∧ (begun s σ).Overdue run m ∧
      ((begun s σ).after (run ++ [m])).failsafe.state ≠ .active) ∧
  ∃ (s : Startup) (σ : Settings) (run : List Moment) (x m : Moment),
    ¬ σ.throttleSpeed < 0.0 ∧ ¬ σ.steeringSpeed < 0.0 ∧
      InOrder Moment.time (run ++ [x] ++ [m]) ∧
      (∃ t, ((begun s σ).activeTimes (run ++ [x])).getLast? = some t ∧
        m.time < t + 2 ^ 32) ∧
      ((begun s σ).after run).radio.polls x.now ∧ m.time < x.time + 2 ^ 32 ∧
      (∀ t ∈ (begun s σ).heard (run ++ [x] ++ [m]),
        t + σ.radioInterval.toNat + σ.failsafeTimeout.toNat ≤ m.time) ∧
      Control.taken (run ++ [x] ++ [m]) = [] ∧
      ((begun s σ).after (run ++ [x] ++ [m])).failsafe.state ≠ .active
  := by
  constructor
  · have hactive : (begun .plain { radioInterval := 0, failsafeTimeout := 0 }).activeTimes
        oneCommand = [1000] := by decide +kernel
    have hheard : (begun .plain { radioInterval := 0, failsafeTimeout := 0 }).heard
        (oneCommand ++ [Moment.plain 1002 (some (.clamped 0.5 0.2))]) = [1000, 1002] := by
      decide +kernel
    have htaken : Control.taken
        (oneCommand ++ [Moment.plain 1002 (some (.clamped 0.5 0.2))]) = [] := by
      decide +kernel
    use .plain, { radioInterval := 0, failsafeTimeout := 0 }, oneCommand,
      .plain 1002 (some (.clamped 0.5 0.2))
    use by decide, by decide, by decide
    constructor
    · constructor
      · rw [hactive]
        use 1000
        decide
      · rw [hheard]
        decide +kernel
      · rw [htaken]
        decide +kernel
      · rw [hheard]
        decide
      · rw [htaken]
        decide
    · decide +kernel
  · use .plain, {}, oneCommand ++ [.plain (1000 + 2 ^ 32) none],
      .plain (1020 + 2 ^ 32) none, .plain (1100 + 2 ^ 32) none
    use by decide, by decide, by decide
    constructor
    · use 1000 + 2 ^ 32
      decide +kernel
    · decide +kernel

end ModelCar.Control
