import ModelCar.Proofs.Control.Start
import ModelCar.Proofs.Control.Turn
import ModelCar.Proofs.Drive.Source
import ModelCar.Proofs.Failsafe

/-!
# Runs of turns

The control loop takes turn after turn, at times of which the clock shows the remainder.
Over a run of turns the sources of commands are what they are over their own readings,
and the failsafe keeps the time of the last turn that found a source active.
-/

namespace ModelCar

/-- What the control loop meets at a turn, with the time of which its clock shows the
remainder. -/
structure Moment extends Surroundings where
  time : Nat
  now_eq : now = .ofTime time

namespace Moment

/-- What a poll of the radio receiver finds. -/
def radioReading (m : Moment) : Reading :=
  ⟨m.time, m.radio⟩

/-- What has come from the wireless clients. -/
def wirelessReading (m : Moment) : Reading :=
  ⟨m.time, m.wireless⟩

end Moment

namespace Control

/-- The control loop after a turn. -/
def next (c : Control) (m : Moment) : Control :=
  (c.turn m.toSurroundings).1

/-- The control loop after a run of turns. -/
def after (c : Control) (run : List Moment) : Control :=
  run.foldl next c

variable {c : Control}

theorem after_concat (c : Control) (run : List Moment) (m : Moment) :
  c.after (run ++ [m]) = (c.after run).next m
  := by
  rw [after, List.foldl_append]
  rfl

/-- What every turn keeps holds after a run of turns. -/
theorem after_of_next {P : Control → Prop} (h : P c)
    (hn : ∀ c m, P c → P (next c m)) (run : List Moment) :
  P (c.after run)
  := by
  induction run using List.reverseRecOn with
  | nil => exact h
  | append_singleton run m ih =>
      rw [after_concat]
      apply hn _ _ ih

theorem after_settings (c : Control) (run : List Moment) :
  (c.after run).settings = c.settings
  := by
  apply after_of_next (P := fun d => d.settings = c.settings) rfl
  intro d m hd
  rw [next, turn_settings, hd]

/-! ### Sources of commands -/

theorem after_radio (c : Control) (run : List Moment) :
  (c.after run).radio = c.radio.after (run.map Moment.radioReading)
  := by
  induction run using List.reverseRecOn with
  | nil => rfl
  | append_singleton run m ih =>
      rw [after_concat, next, turn_radio, ih, m.now_eq, List.map_append]
      symm
      apply Radio.after_concat

theorem after_wireless (c : Control) (run : List Moment) :
  (c.after run).wireless = c.wireless.after (run.map Moment.wirelessReading)
  := by
  induction run using List.reverseRecOn with
  | nil => rfl
  | append_singleton run m ih =>
      rw [after_concat, next, turn_wireless, ih, m.now_eq, List.map_append]
      symm
      apply Wireless.after_concat

/-- The times of the polls of the radio receiver that heard a command. -/
def heard (c : Control) (run : List Moment) : List Nat :=
  c.radio.heard (run.map Moment.radioReading)

/-- The times at which a wireless command was taken. -/
def taken (run : List Moment) : List Nat :=
  (Wireless.taken (run.map Moment.wirelessReading)).map (·.2)

/-- Some source is active. -/
def hasSource (c : Control) : Bool :=
  c.radio.isActive || c.wireless.isActive

/-- The times of the turns of a run at which some source was active. -/
def activeTimes (c : Control) : List Moment → List Nat
  | [] => []
  | m :: run =>
    let later := (c.next m).activeTimes run
    if (c.next m).hasSource then m.time :: later else later

theorem activeTimes_concat (c : Control) (run : List Moment) (m : Moment) :
  c.activeTimes (run ++ [m]) =
    c.activeTimes run ++ if (c.after (run ++ [m])).hasSource then [m.time] else []
  := by
  induction run generalizing c with
  | nil => rfl
  | cons n run ih =>
      simp only [List.cons_append, activeTimes]
      rw [ih]
      split
      · rfl
      · rfl

theorem exists_moment_of_mem_activeTimes {run : List Moment} {t : Nat}
    (h : t ∈ c.activeTimes run) :
  ∃ m ∈ run, m.time = t
  := by
  induction run using List.reverseRecOn with
  | nil => cases h
  | append_singleton run m ih =>
      rw [activeTimes_concat] at h
      obtain h | h := List.mem_append.mp h
      · obtain ⟨n, hn, ht⟩ := ih h
        use n, List.mem_append_left _ hn, ht
      · split at h
        · use m, List.mem_append_right _ (List.mem_singleton_self m)
          exact (List.mem_singleton.mp h).symm
        · cases h

/-- The failsafe keeps the time of the last turn at which some source was active. -/
theorem after_failsafe_last (hc : c.failsafe.last = none) (run : List Moment) :
  (c.after run).failsafe.last = (c.activeTimes run).getLast?.map .ofTime
  := by
  induction run using List.reverseRecOn with
  | nil => exact hc
  | append_singleton run m ih =>
      have hl : (c.after (run ++ [m])).failsafe.last =
          if (c.after (run ++ [m])).hasSource then some (.ofTime m.time)
          else (c.after run).failsafe.last := by
        rw [after_concat, next, turn_failsafe, Failsafe.update_last, m.now_eq]
        rfl
      rw [hl, activeTimes_concat, ih]
      split
      · simp
      · simp

theorem after_failsafe_timeout (c : Control) (run : List Moment) :
  (c.after run).failsafe.timeout = c.failsafe.timeout
  := by
  apply after_of_next (P := fun d => d.failsafe.timeout = c.failsafe.timeout) rfl
  intro d m hd
  rw [next, turn_failsafe, Failsafe.update_timeout, hd]

end Control

/-! ### Plain surroundings -/

/-- A start at which every device works and nothing is stored. -/
def Startup.plain : Startup where
  now := 1000
  outputFault := none
  failsafeFault := none
  radioFault := none
  sensorFault := none
  identity := none
  calibration := none
  tuning := none

/-- A moment at which there is nothing but what the receiver finds. -/
def Moment.plain (time : Nat) (radio : Option Controls) : Moment where
  time := time
  now := .ofTime time
  now_eq := rfl
  radio := radio
  wireless := none
  sample := none
  requests := []
  fault := none
  clients := 0
  began := 0
  ended := 0

end ModelCar
