import ModelCar.Proofs.Web.Course
import ModelCar.Proofs.Web.Replies

/-!
# What a client does that changes the tuning

A client that makes a change goes through its conversation step by step, with at most one
request waiting.  When a request of it is rejected, when it stops waiting, or when its
change fails, its conversation is lost, and what is lost stays lost.
-/

namespace ModelCar

namespace Web

open Tuning (Patch)

/-! ### A client -/

/-- What a client that makes a change is doing, the requests of it that are waiting, and
how far it has come. -/
inductive Follows (p : Patch Float32) (answers : List (Nat × Answer)) :
    Client → List Ticketed → Stage → Prop where
  | opening : Follows p answers (.talking (retune p)) [] .unread
  | asking {ticket : Nat} (h : answers.lookup ticket = none) :
      Follows p answers (.waiting ticket (resume status? (change p))) [⟨ticket, .query⟩] .unread
  | told {ticket : Nat} {s : Status} (h : answers.lookup ticket = some (.status s)) :
      Follows p answers (.waiting ticket (resume status? (change p))) [] (.read s.tuning)
  | knowing (s : Status) : Follows p answers (.talking (change p s)) [] (.read s.tuning)
  | changing {ticket : Nat} (s : Status) (h : answers.lookup ticket = none) :
      Follows p answers (.waiting ticket (resume retuned? retuned))
        [⟨ticket, .retune (p.apply s.tuning) true⟩] (.read s.tuning)
  | changed {ticket : Nat} {t : Tuning Float32}
      (h : answers.lookup ticket = some (.retune (.ok t))) :
      Follows p answers (.waiting ticket (resume retuned? retuned)) [] .written
  | leaving (t : Tuning Float32) : Follows p answers (.talking (retuned (.ok t))) [] .written
  | gone (reply : Option Json) : Follows p answers (.talking (.done reply)) [] .written

/-- The conversation of a client is lost: it ends without a confirmation. -/
def Client.Lost (answers : List (Nat × Answer)) : Client → Prop
  | .talking conversation => Hopeless conversation
  | .waiting ticket next =>
    Hopeless (next .silent) ∧
      ∃ a, answers.lookup ticket = some a ∧ Hopeless (next (.answered a))

/-- The conversation of a client has ended with a confirmation. -/
def Client.Confirmed (c : Client) : Prop :=
  ∃ reply, c = .talking (.done (some reply)) ∧ isConfirmation reply

variable {q : Patch Float32} {answers more : List (Nat × Answer)} {c : Client}
  {pending : List Ticketed} {st : Stage}

theorem Client.Confirmed.not_lost (h : c.Confirmed) :
  ¬ c.Lost answers
  := by
  obtain ⟨reply, rfl, hr⟩ := h
  intro hl
  exact hl reply rfl hr

theorem Follows.written (h : Follows q answers c pending st) (hc : c.Confirmed) :
  st = .written
  := by
  obtain ⟨reply, rfl, -⟩ := hc
  cases h
  rfl

/-- At most one request of a client is waiting. -/
theorem Follows.pending_cases (h : Follows q answers c pending st) :
  pending = [] ∨ ∃ d, pending = [d]
  := by
  cases h with
  | asking => exact .inr ⟨_, rfl⟩
  | changing => exact .inr ⟨_, rfl⟩
  | _ => exact .inl rfl

theorem lookup_append_of_some {ticket : Nat} {a : Answer} (h : answers.lookup ticket = some a)
    (more : List (Nat × Answer)) :
  (answers ++ more).lookup ticket = some a
  := by rw [List.lookup_append, h, Option.some_or]

theorem lookup_concat_of_none {ticket : Nat} (h : answers.lookup ticket = none) (a : Answer) :
  (answers ++ [(ticket, a)]).lookup ticket = some a
  := by rw [List.lookup_append, h, List.lookup_cons_self, Option.none_or]

/-- Answers to others do not matter. -/
theorem Follows.append (h : Follows q answers c pending st)
    (hm : ∀ d ∈ pending, more.lookup d.ticket = none) :
  Follows q (answers ++ more) c pending st
  := by
  have hnone {d : Ticketed} (hd : d ∈ pending) (h : answers.lookup d.ticket = none) :
      (answers ++ more).lookup d.ticket = none := by
    rw [List.lookup_append, h, hm d hd, Option.none_or]
  cases h with
  | opening => exact .opening
  | asking h => exact .asking (hnone (List.mem_singleton_self _) h)
  | told h => exact .told (lookup_append_of_some h more)
  | knowing s => exact .knowing s
  | changing s h => exact .changing s (hnone (List.mem_singleton_self _) h)
  | changed h => exact .changed (lookup_append_of_some h more)
  | leaving t => exact .leaving t
  | gone reply => exact .gone reply

theorem Client.Lost.append (h : c.Lost answers) (more : List (Nat × Answer)) :
  c.Lost (answers ++ more)
  := by
  cases c with
  | talking conversation => exact h
  | waiting ticket next =>
      obtain ⟨hs, a, ha, hn⟩ := h
      exact ⟨hs, a, lookup_append_of_some ha more, hn⟩

/-! ### Lost conversations -/

/-- One of the conversations is lost. -/
def World.Lost (w : World) : Prop :=
  ∃ i, (w.client i).Lost w.answers

variable {w : World} {i : Side}

theorem World.step_frame (w : World) {i j : Side} (h : i ≠ j) :
  (w.step j).answers = w.answers ∧ (w.step j).client i = w.client i
  := by
  unfold World.step
  split
  · exact ⟨rfl, rfl⟩
  · exact ⟨rfl, Function.update_of_ne h _ _⟩
  · exact ⟨rfl, Function.update_of_ne h _ _⟩
  · split
    · exact ⟨rfl, Function.update_of_ne h _ _⟩
    · exact ⟨rfl, Function.update_of_ne h _ _⟩
  · split
    · exact ⟨rfl, Function.update_of_ne h _ _⟩
    · exact ⟨rfl, Function.update_of_ne h _ _⟩
  · split
    · exact ⟨rfl, Function.update_of_ne h _ _⟩
    · exact ⟨rfl, rfl⟩

theorem World.giveUp_frame (w : World) {i j : Side} (h : i ≠ j) :
  (w.giveUp j).answers = w.answers ∧ (w.giveUp j).client i = w.client i
  := by
  unfold World.giveUp
  split
  · exact ⟨rfl, rfl⟩
  · exact ⟨rfl, Function.update_of_ne h _ _⟩

theorem World.become_lost {c : Client} (h : c.Lost w.answers) :
  (w.become i c).Lost
  := by
  use i
  show (Function.update w.client i c i).Lost w.answers
  rw [Function.update_self]
  exact h

theorem World.step_lost (h : (w.client i).Lost w.answers) :
  (w.step i).Lost
  := by
  cases hc : w.client i with
  | talking conversation =>
      rw [hc] at h
      cases conversation with
      | done reply =>
          have hs : w.step i = w := by simp only [World.step, hc]
          rw [hs]
          use i
          rw [hc]
          exact h
      | note entry next =>
          have hs : w.step i = w.become i (.talking next) := by simp only [World.step, hc]
          rw [hs]
          exact World.become_lost h
      | drive throttle steering next => cases h
      | leave request next => cases h
      | ask request next => cases h
  | waiting ticket next =>
      rw [hc] at h
      obtain ⟨-, a, ha, hn⟩ := h
      rw [World.step_of_answer hc ha]
      exact World.become_lost hn

theorem World.giveUp_lost (h : (w.client i).Lost w.answers) :
  (w.giveUp i).Lost
  := by
  unfold World.giveUp
  split
  · exact ⟨i, h⟩
  · rename_i hc
    rw [hc] at h
    exact World.become_lost h.1

/-- What is lost stays lost. -/
theorem World.Lost.next (h : w.Lost) (a : Action) :
  (w.next a).Lost
  := by
  obtain ⟨i, h⟩ := h
  cases a with
  | step j =>
      obtain rfl | hj := eq_or_ne i j
      · exact World.step_lost h
      · obtain ⟨ha, hc⟩ := w.step_frame hj
        use i
        rw [World.next, ha, hc]
        exact h
  | giveUp j =>
      obtain rfl | hj := eq_or_ne i j
      · exact World.giveUp_lost h
      · obtain ⟨ha, hc⟩ := w.giveUp_frame hj
        use i
        rw [World.next, ha, hc]
        exact h
  | sense s =>
      use i
      rw [World.next, World.sense]
      split
      · exact h
      · exact h
  | serve fault =>
      rw [World.next]
      obtain hs | ⟨d, waiting, -, hs⟩ := w.serve_cases fault
      · rw [hs]
        exact ⟨i, h⟩
      · rw [hs]
        exact ⟨i, h.append _⟩
  | finish =>
      use i
      rw [World.next, World.finish]
      split
      · exact h
      · exact h

end Web

end ModelCar
