import Mathlib
import ModelCar.Proofs.Clock

/-!
# Pacing

A pace is polled and restarted at times that the clock shows modulo `2 ^ 32`.  As long as no
poll comes a round of the clock or more after the last firing or restart, the pace does what it
would do on a clock that never comes round: it fires at once if nothing has been counted yet,
afterwards whenever its interval has passed, and it gives the time that has passed.  So its
firings are at least an interval apart, and between restarts what they give adds up to the time
from the first one to the last: `paced_over_runs`.
-/

namespace ModelCar.Pace

/-! ### Runs -/

/-- Something that is done with a pace at a time. -/
inductive Call where
  | poll (time : Nat)
  | restart (time : Nat)
deriving DecidableEq

/-- The time of a call. -/
def Call.time : Call → Nat
  | .poll time => time
  | .restart time => time

/-- What a call gives, and the pace after it. -/
def perform (p : Pace) : Call → Option Millis × Pace
  | .poll time => p.poll (.ofTime time)
  | .restart time => (none, p.restart (.ofTime time))

/-- The pace after a run of calls. -/
def after (p : Pace) (run : List Call) : Pace :=
  run.foldl (fun p c => (p.perform c).2) p

/-- A call and what it gives. -/
structure Answer where
  call : Call
  elapsed : Option Millis
deriving DecidableEq

/-- The calls of a run, each with what it gives. -/
def answers (p : Pace) : List Call → List Answer
  | [] => []
  | c :: run => ⟨c, (p.perform c).1⟩ :: (p.perform c).2.answers run

/-- The time from which the next interval is counted: that of a firing, or of a restart. -/
def Answer.mark? (a : Answer) : Option Nat :=
  match a.call with
  | .poll time => a.elapsed.map fun _ => time
  | .restart time => some time

/-- The time of the last firing or restart. -/
def lastMark (history : List Answer) : Option Nat :=
  (history.filterMap Answer.mark?).getLast?

/-- A firing, with what the pace gives. -/
structure Firing where
  time : Nat
  elapsed : Millis
deriving DecidableEq

/-- The firing at a call. -/
def Answer.firing? (a : Answer) : Option Firing :=
  a.elapsed.map fun elapsed => ⟨a.call.time, elapsed⟩

/-- The firings in their order. -/
def firings (history : List Answer) : List Firing :=
  history.filterMap Answer.firing?

/-- No poll comes a round of the clock or more after the last firing or restart. -/
def Timely (p : Pace) (run : List Call) : Prop :=
  ∀ before t later, run = before ++ .poll t :: later →
    ∀ u ∈ lastMark (p.answers before), t < u + 2 ^ 32

/-- What a pace would give to a poll if the clock showed the time itself: the interval if there
has been no firing or restart, and otherwise the time since the last one, once it is as long as
the interval. -/
def owed (interval t : Nat) : Option Nat → Option Nat
  | none => some interval
  | some u => if interval ≤ t - u then some (t - u) else none

variable {p : Pace} {before part run : List Call} {t : Nat}

theorem after_append (p : Pace) (run more : List Call) :
  p.after (run ++ more) = (p.after run).after more
  := List.foldl_append

theorem answers_append (p : Pace) (run more : List Call) :
  p.answers (run ++ more) = p.answers run ++ (p.after run).answers more
  := by
  induction run generalizing p with
  | nil => rfl
  | cons c run ih =>
      apply congrArg (List.cons _)
      apply ih

theorem answers_concat (p : Pace) (run : List Call) (c : Call) :
  p.answers (run ++ [c]) = p.answers run ++ [⟨c, ((p.after run).perform c).1⟩]
  := p.answers_append run [c]

theorem firings_append (history more : List Answer) :
  firings (history ++ more) = firings history ++ firings more
  := List.filterMap_append

theorem lastMark_append (history more : List Answer) :
  lastMark (history ++ more) = (lastMark more).or (lastMark history)
  := by rw [lastMark, List.filterMap_append, List.getLast?_append, lastMark, lastMark]

theorem lastMark_concat (history : List Answer) (a : Answer) :
  lastMark (history ++ [a]) = a.mark?.or (lastMark history)
  := by
  rw [lastMark_append]
  cases h : a.mark? with
  | none => simp [lastMark, h]
  | some u => simp [lastMark, h]

theorem Timely.init (h : p.Timely (before ++ part)) :
  p.Timely before
  := by
  rintro run t later rfl
  apply h run t (later ++ part)
  simp

theorem timely_iff_take (p : Pace) (run : List Call) :
  (∀ i (hi : i < run.length), ∀ u ∈ lastMark (p.answers (run.take i)),
      run[i] = .poll run[i].time → run[i].time < u + 2 ^ 32) ↔
    p.Timely run
  := by
  constructor
  · rintro h before t later rfl u hu
    have hlt := h before.length (by simp) u (by simpa using hu)
    simpa [Call.time] using hlt
  · intro h i hi u hu hpoll
    apply h (run.take i) _ (run.drop (i + 1)) _ u hu
    rw [← hpoll]
    simp

instance (p : Pace) (run : List Call) : Decidable (p.Timely run) :=
  decidable_of_iff _ (p.timely_iff_take run)

/-! ### One call -/

theorem poll_fst (p : Pace) (now : Millis) :
  (p.poll now).1 = p.due now
  := by
  unfold poll
  split
  · symm
    assumption
  · symm
    assumption

theorem perform_interval (p : Pace) (c : Call) :
  (p.perform c).2.interval = p.interval
  := by
  cases c with
  | poll t =>
      rw [perform, poll]
      split
      · rfl
      · rfl
  | restart t => rfl

/-- A pace keeps the time of a firing or restart. -/
theorem perform_last (p : Pace) (c : Call) :
  (p.perform c).2.last = ((Answer.mark? ⟨c, (p.perform c).1⟩).map .ofTime).or p.last
  := by
  cases c with
  | poll t =>
      rw [perform, poll]
      split
      · rfl
      · rfl
  | restart t => rfl

/-- Less than a round of the clock after the last firing or restart, a poll gives what is owed
to it. -/
theorem toNat_poll {mark : Option Nat} (hp : p.last = mark.map .ofTime)
    (hmark : ∀ u ∈ mark, u ≤ t ∧ t < u + 2 ^ 32) :
  (p.poll (.ofTime t)).1.map UInt32.toNat = owed p.interval.toNat t mark
  := by
  rw [poll_fst]
  cases mark with
  | none => simp [due, hp, owed]
  | some u =>
      obtain ⟨hle, hlt⟩ := hmark u rfl
      -- Within a round of the clock its readings differ by the time that has passed.
      have helapsed : (Millis.ofTime t - .ofTime u).toNat = t - u := by
        rw [Millis.toNat_ofTime_sub hle, Nat.mod_eq_of_lt (by omega)]
      have hp : p.last = some (.ofTime u) := hp
      simp only [due, hp, owed, UInt32.lt_iff_toNat_lt, helapsed]
      split
      · rw [if_neg (by omega)]
        rfl
      · rw [if_pos (by omega), Option.map_some, helapsed]

/-! ### What is counted -/

theorem after_interval (p : Pace) (run : List Call) :
  (p.after run).interval = p.interval
  := by
  induction run generalizing p with
  | nil => rfl
  | cons c run ih =>
      apply (ih _).trans
      apply perform_interval

/-- A pace knows the time of the last firing or restart, as the clock showed it. -/
theorem after_last (hp : p.last = none) (run : List Call) :
  (p.after run).last = (lastMark (p.answers run)).map .ofTime
  := by
  induction run using List.reverseRecOn with
  | nil => exact hp
  | append_singleton run c ih =>
      have hlast := (p.after run).perform_last c
      rw [ih, ← Option.map_or] at hlast
      rw [answers_concat, lastMark_concat, after_append]
      exact hlast

theorem call_mem_of_mem_answers {a : Answer} (h : a ∈ p.answers run) :
  a.call ∈ run
  := by
  induction run generalizing p with
  | nil => cases h
  | cons c run ih =>
      obtain rfl | h := List.mem_cons.mp h
      · apply List.mem_cons_self
      · apply List.mem_cons_of_mem c (ih h)

/-- The last firing or restart came no later than the call that is next. -/
theorem lastMark_le {c : Call} (hin : InOrder Call.time (run ++ [c])) :
  ∀ u ∈ lastMark (p.answers run), u ≤ c.time
  := by
  intro u hu
  obtain ⟨⟨call, elapsed⟩, ha, hmark⟩ := List.mem_filterMap.mp (List.mem_of_getLast? hu)
  have htime : call.time = u := by
    cases call with
    | poll t =>
        obtain ⟨-, -, rfl⟩ := Option.map_eq_some_iff.mp hmark
        rfl
    | restart t => exact Option.some_inj.mp hmark
  rw [← htime]
  apply hin.le_last call (call_mem_of_mem_answers ha)

/-- At any poll of a run, the pace gives what is owed. -/
theorem toNat_poll_after (hp : p.last = none) (hin : InOrder Call.time (run ++ [.poll t]))
    (h : p.Timely (run ++ [.poll t])) :
  ((p.after run).poll (.ofTime t)).1.map UInt32.toNat =
    owed p.interval.toNat t (lastMark (p.answers run))
  := by
  rw [← p.after_interval run]
  apply toNat_poll (after_last hp run)
  intro u hu
  constructor
  · apply lastMark_le hin u hu
  · apply h run t [] rfl u hu

/-- A poll that fires after another firing or a restart gives the time since then, which is at
least the interval. -/
theorem elapsed_eq (hp : p.last = none) (hin : InOrder Call.time (run ++ [.poll t]))
    (h : p.Timely (run ++ [.poll t])) {u : Nat} (hu : lastMark (p.answers run) = some u)
    {elapsed : Millis} (he : ((p.after run).poll (.ofTime t)).1 = some elapsed) :
  u + elapsed.toNat = t ∧ p.interval.toNat ≤ elapsed.toNat
  := by
  have hle : u ≤ t := lastMark_le hin u hu
  have howed := toNat_poll_after hp hin h
  rw [he, hu, owed] at howed
  split at howed
  · have := Option.some_inj.mp howed
    omega
  · cases howed

/-! ### Firings -/

theorem firings_concat_poll (p : Pace) (run : List Call) (t : Nat) :
  firings (p.answers (run ++ [.poll t])) = firings (p.answers run) ++
    (((p.after run).poll (.ofTime t)).1.map (Firing.mk t)).toList
  := by
  rw [answers_concat, firings_append]
  cases h : ((p.after run).poll (.ofTime t)).1 with
  | none => simp [firings, Answer.firing?, perform, h]
  | some elapsed => simp [firings, Answer.firing?, perform, h, Call.time]

theorem firings_concat_restart (p : Pace) (run : List Call) (t : Nat) :
  firings (p.answers (run ++ [.restart t])) = firings (p.answers run)
  := by
  rw [answers_concat, firings_append]
  apply List.append_nil

/-- No firing comes after the last firing or restart. -/
theorem le_lastMark (hin : InOrder Call.time run) :
  ∀ f ∈ firings (p.answers run), ∃ u ∈ lastMark (p.answers run), f.time ≤ u
  := by
  induction run using List.reverseRecOn with
  | nil => simp [answers, firings]
  | append_singleton run c ih =>
      have hold : ∀ f ∈ firings (p.answers run), f.time ≤ c.time := by
        intro f hf
        obtain ⟨u, hu, hfu⟩ := ih hin.init f hf
        apply hfu.trans (lastMark_le hin u hu)
      intro f hf
      cases c with
      | restart t =>
          rw [firings_concat_restart] at hf
          rw [answers_concat, lastMark_concat]
          use t, rfl, hold f hf
      | poll t =>
          rw [firings_concat_poll] at hf
          rw [answers_concat, lastMark_concat, perform]
          cases he : ((p.after run).poll (.ofTime t)).1 with
          | none =>
              rw [he] at hf
              exact ih hin.init f (by simpa using hf)
          | some elapsed =>
              use t, rfl
              rw [he] at hf
              obtain hf | hf := List.mem_append.mp hf
              · apply hold f hf
              · obtain rfl := List.mem_singleton.mp hf
                apply Nat.le_refl

/-- Two firings are at least an interval apart. -/
theorem firings_apart (hp : p.last = none) (hin : InOrder Call.time run) (h : p.Timely run) :
  (firings (p.answers run)).Pairwise fun f g => f.time + p.interval.toNat ≤ g.time
  := by
  induction run using List.reverseRecOn with
  | nil => exact .nil
  | append_singleton run c ih =>
      have hrun := ih hin.init h.init
      cases c with
      | restart t => rwa [firings_concat_restart]
      | poll t =>
          rw [firings_concat_poll]
          cases he : ((p.after run).poll (.ofTime t)).1 with
          | none => simpa using hrun
          | some elapsed =>
              apply List.pairwise_append.mpr
              refine ⟨hrun, List.pairwise_singleton _ _, ?_⟩
              intro f hf g hg
              obtain rfl := List.mem_singleton.mp hg
              -- The interval is counted from the last firing or restart, and that is `f` or later.
              obtain ⟨u, hu, hfu⟩ := le_lastMark hin.init f hf
              obtain ⟨rfl, hinterval⟩ := elapsed_eq hp hin h hu he
              apply Nat.add_le_add hfu hinterval

/-- Without restarts, the last firing or restart is the last firing. -/
theorem lastMark_eq_firing (p : Pace) (hpart : ∀ t, .restart t ∉ part) :
  lastMark (p.answers part) = (firings (p.answers part)).getLast?.map Firing.time
  := by
  rw [lastMark, firings, ← List.getLast?_map, List.map_filterMap]
  apply congrArg List.getLast?
  apply List.filterMap_congr
  intro ⟨call, elapsed⟩ ha
  cases call with
  | poll t => cases elapsed <;> rfl
  | restart t => cases hpart t (call_mem_of_mem_answers ha)

/-- Without restarts, each firing but the first gives the time since the one before it. -/
theorem firings_chain (hp : p.last = none) (hin : InOrder Call.time (before ++ part))
    (h : p.Timely (before ++ part)) (hpart : ∀ t, .restart t ∉ part) :
  (firings ((p.after before).answers part)).IsChain
    fun f g => f.time + g.elapsed.toNat = g.time
  := by
  induction part using List.reverseRecOn with
  | nil => exact .nil
  | append_singleton part c ih =>
      rw [← List.append_assoc] at hin h
      have hpart' : ∀ t, .restart t ∉ part := fun t ht => hpart t (List.mem_append_left _ ht)
      have hchain := ih hin.init h.init hpart'
      cases c with
      | restart t => cases hpart t (List.mem_append_right _ (List.mem_singleton_self _))
      | poll t =>
          rw [firings_concat_poll, ← after_append]
          cases he : ((p.after (before ++ part)).poll (.ofTime t)).1 with
          | none => simpa using hchain
          | some elapsed =>
              apply List.isChain_append.mpr
              refine ⟨hchain, .singleton _, ?_⟩
              intro f hf g hg
              obtain rfl := Option.some_inj.mp hg
              have hmark : lastMark (p.answers (before ++ part)) = some f.time := by
                rw [answers_append, lastMark_append, lastMark_eq_firing _ hpart', hf]
                rfl
              exact (elapsed_eq hp hin h hmark he).1

/-- What each firing gives after the one before it adds up to the time from the first one to
the last. -/
theorem sum_of_isChain {first : Firing} {later : List Firing}
    (h : (first :: later).IsChain fun f g => f.time + g.elapsed.toNat = g.time) :
  first.time + (later.map fun f => f.elapsed.toNat).sum = (later.getLastD first).time
  := by
  induction later generalizing first with
  | nil => rfl
  | cons second later ih =>
      obtain ⟨hsecond, h⟩ := List.isChain_cons_cons.mp h
      rw [List.map_cons, List.sum_cons, ← Nat.add_assoc, hsecond, List.getLastD_cons]
      apply ih h

/-! ### Pacing -/

/-- A pace at the start that is called at times in their order, with no poll a round of the
clock or more after the last firing or restart, gives to every poll what is owed to it.  Any
two firings are at least an interval apart, and in any part of the run without restarts what
the firings after the first one give adds up to the time from the first to the last. -/
theorem paced_over_runs (hp : p.last = none) (hin : InOrder Call.time run)
    (h : p.Timely run) :
  (∀ before t later, run = before ++ .poll t :: later →
    ((p.after before).poll (.ofTime t)).1.map UInt32.toNat =
      owed p.interval.toNat t (lastMark (p.answers before))) ∧
  (firings (p.answers run)).Pairwise (fun f g => f.time + p.interval.toNat ≤ g.time) ∧
  ∀ before part later, run = before ++ part ++ later → (∀ t, .restart t ∉ part) →
    ∀ first others, firings ((p.after before).answers part) = first :: others →
      first.time + (others.map fun f => f.elapsed.toNat).sum = (others.getLastD first).time
  := by
  refine ⟨?_, firings_apart hp hin h, ?_⟩
  · rintro before t later rfl
    rw [List.append_cons] at hin h
    apply toNat_poll_after hp (List.pairwise_append.mp hin).1 h.init
  · rintro before part later rfl hpart first others hfirings
    have hchain := firings_chain hp (List.pairwise_append.mp hin).1 h.init hpart
    rw [hfirings] at hchain
    apply sum_of_isChain hchain

/-- Polls and a restart while the clock comes round twice. -/
def twiceAround : List Call :=
  [.poll (2 ^ 32 - 5), .poll (2 ^ 32 + 3), .poll (2 ^ 32 + 6), .poll (2 ^ 32 + 20),
    .restart (2 ^ 32 + 21), .poll (2 ^ 32 + 30), .poll (2 ^ 33 + 20)]

/-- The last poll comes nearly a round of the clock after the restart. -/
theorem paced_over_runs_twiceAround :
  let p : Pace := ⟨10, none⟩
  InOrder Call.time twiceAround ∧ p.Timely twiceAround ∧
    ((p.after (twiceAround.take 6)).poll (.ofTime (2 ^ 33 + 20))).1.map UInt32.toNat =
      some (2 ^ 32 - 1) ∧
    (firings (p.answers twiceAround)).Pairwise (fun f g => f.time + 10 ≤ g.time) ∧
    ∃ first others, firings (p.answers (twiceAround.take 4)) = first :: others ∧
      others.map (fun f => f.elapsed) = [11, 14] ∧
      first.time + (others.map fun f => f.elapsed.toNat).sum = (others.getLastD first).time
  := by
  intro p
  have hin : InOrder Call.time twiceAround := by decide
  have htimely : p.Timely twiceAround := by decide +kernel
  obtain ⟨howed, hapart, hsum⟩ := paced_over_runs rfl hin htimely
  refine ⟨hin, htimely, ?_, hapart, ?_⟩
  · rw [howed (twiceAround.take 6) (2 ^ 33 + 20) [] rfl]
    decide +kernel
  · have hfirings : firings (p.answers (twiceAround.take 4)) =
        ⟨2 ^ 32 - 5, 10⟩ :: [⟨2 ^ 32 + 6, 11⟩, ⟨2 ^ 32 + 20, 14⟩] := by decide +kernel
    have hpart : ∀ t, .restart t ∉ twiceAround.take 4 := by simp [twiceAround]
    refine ⟨_, _, hfirings, rfl, ?_⟩
    apply hsum [] (twiceAround.take 4) (twiceAround.drop 4) rfl hpart _ _ hfirings

end ModelCar.Pace
