import ModelCar.Proofs.Control.Acceptance
import ModelCar.Proofs.Control.Restoration
import ModelCar.Proofs.Stabilization.Validity
import ModelCar.Proofs.Web.Following

/-!
# Changes that are confirmed

A question that a client has asked waits in the mailbox until the next turn.  When nobody
gives up and the tuning can be stored, that turn answers all questions that are waiting, and
each of them as the client hopes: `World.Asked.turn`.  What a client has been told it
keeps, whatever others do, until it fetches the answer.  So a client whose change may be
used is confirmed after two turns, whether the other client makes its change before, after
or in the same turns.
-/

namespace ModelCar

namespace Web

open Tuning (Patch)

/-! ### Requests that are granted -/

/-- An answer grants what was asked for. -/
inductive Granted : ModelCar.Request → Answer → Prop where
  | query {s : Status} (h : s.tuning.IsClean) : Granted .query (.status s)
  | retune {t : Tuning Float32} {keep : Bool} : Granted (.retune t keep) (.retune (.ok t.clamped))

/-- A request is granted unless a fault gets in the way. -/
inductive Grantable : ModelCar.Request → Prop where
  | query : Grantable .query
  | retune {t : Tuning Float32} {keep : Bool} (h : t.clamped.IsValid) : Grantable (.retune t keep)

/-- A change of the tuning is answered with its result. -/
theorem answers_retune (c : Control) (t : Tuning Float32) (keep : Bool) (ticket : Nat)
    (fault : Option Fault) :
  (c.handle ⟨⟨ticket, .retune t keep⟩, fault⟩).2.filterMap answer?
    = [(ticket, .retune (c.retune t keep fault).1)]
  := by
  have hn : (c.retune t keep fault).2.2.filterMap answer? = [] := by
    rw [List.filterMap_eq_nil_iff]
    intro e he
    cases e with
    | answer ticket a =>
        cases ((Control.retune_retuned c t keep fault).eq_storeTuning he trivial).2
    | _ => rfl
  show ((c.retune t keep fault).2.2 ++ [Effect.answer ticket _]).filterMap answer? = _
  rw [List.filterMap_append, hn]
  rfl

theorem Grantable.exists_answer {r : ModelCar.Request} (h : Grantable r) {c : Control}
    (hc : c.Settled) (ticket : Nat) :
  ∃ a, (c.handle ⟨⟨ticket, r⟩, none⟩).2.filterMap answer? = [(ticket, a)] ∧ Granted r a
  := by
  cases h with
  | query => exact ⟨.status c.status, rfl, .query hc.isClean⟩
  | @retune t keep ht =>
      use .retune (.ok t.clamped)
      rw [answers_retune, (c.retune_of_valid ht keep).1]
      exact ⟨rfl, .retune⟩

/-- Every tuning that may be in use may be changed in this way. -/
def Welcome (p : Patch Float32) : Prop :=
  ∀ t : Tuning Float32, t.IsClean → (p.apply t).clamped.IsValid

/-- Only the largest correction of the steering can spoil a tuning. -/
theorem welcome_of_maxCorrection {p : Patch Float32} (hm : p.mode = none)
    (hc : p.maxCorrection = none) :
  Welcome p
  := by
  intro t ht
  have htvalid : t.clamped.IsValid := by
    rw [ht.2]
    exact ht.1
  have hcorrection : (p.assign t).maxCorrection = t.maxCorrection := by
    rw [Patch.assign, hc]
    rfl
  rw [Patch.apply_of_mode_eq_none hm, Tuning.isValid_clamped_iff, hcorrection]
  exact (Tuning.isValid_clamped_iff t).mp htvalid

/-! ### What others do -/

/-- The client that takes part in what happens. -/
def Action.side? : Action → Option Side
  | .step i => some i
  | .giveUp i => some i
  | _ => none

/-- A client takes no part in a run. -/
def Absent (i : Side) (run : List Action) : Prop :=
  ∀ a ∈ run, a.side? ≠ some i

theorem Absent.append {i : Side} {run more : List Action} (h : Absent i run)
    (hm : Absent i more) :
  Absent i (run ++ more)
  := List.forall_mem_append.mpr ⟨h, hm⟩

theorem absent_serve {i : Side} (n : Nat) :
  Absent i (List.replicate n (.serve none))
  := by
  intro a ha
  rw [List.eq_of_mem_replicate ha]
  rintro ⟨⟩

namespace World

variable {w : World} {i : Side}

theorem client_next (w : World) {a : Action} (ha : a.side? ≠ some i) :
  (w.next a).client i = w.client i
  := by
  cases a with
  | step j =>
      have hne : i ≠ j := by
        rintro rfl
        exact ha rfl
      exact (w.step_frame hne).2
  | giveUp j =>
      have hne : i ≠ j := by
        rintro rfl
        exact ha rfl
      exact (w.giveUp_frame hne).2
  | sense s =>
      rw [next, sense]
      split
      · rfl
      · rfl
  | serve fault =>
      rw [next]
      obtain hs | ⟨d, waiting, -, hs⟩ := w.serve_cases fault
      · rw [hs]
      · rw [hs]
        rfl
  | finish =>
      rw [next, finish]
      split
      · rfl
      · rfl

/-- Whatever the others do, a client stays where it is. -/
theorem client_after (w : World) {run : List Action} (hr : Absent i run) :
  (w.after run).client i = w.client i
  := by
  induction run generalizing w with
  | nil => rfl
  | cons a run ih =>
      obtain ⟨ha, hr⟩ := List.forall_mem_cons.mp hr
      rw [after_cons, ih _ hr, client_next w ha]

/-- An answer that has been given stays. -/
theorem lookup_next {ticket : Nat} {a : Answer} (h : w.answers.lookup ticket = some a)
    (action : Action) :
  (w.next action).answers.lookup ticket = some a
  := by
  cases action with
  | step j =>
      rw [next, (w.step_frame j.other_ne).1]
      exact h
  | giveUp j =>
      rw [next, (w.giveUp_frame j.other_ne).1]
      exact h
  | sense s =>
      rw [next, sense]
      split
      · exact h
      · exact h
  | serve fault =>
      rw [next]
      obtain hs | ⟨d, waiting, -, hs⟩ := w.serve_cases fault
      · rw [hs]
        exact h
      · rw [hs]
        exact lookup_append_of_some h _
  | finish =>
      rw [next, finish]
      split
      · exact h
      · exact h

end World

/-! ### Questions -/

/-- A question that a client has asked. -/
structure Inquiry where
  side : Side
  ticket : Nat
  request : ModelCar.Request
  /-- How the client goes on. -/
  next : Outcome → Conversation

variable {w : World} {t : Option (Surroundings × Millis)} {asked : List Inquiry} {q : Inquiry}
  {i : Side}

/-- A question has been answered, and the client has not fetched the answer yet. -/
structure World.Told (w : World) (q : Inquiry) : Prop where
  client : w.client q.side = .waiting q.ticket q.next
  answer : ∃ a, w.answers.lookup q.ticket = some a ∧ Granted q.request a

theorem World.Told.next (h : w.Told q) {a : Action} (ha : a.side? ≠ some q.side) :
  (w.next a).Told q
  := by
  obtain ⟨answer, hanswer, hg⟩ := h.answer
  constructor
  · rw [w.client_next ha]
    exact h.client
  · exact ⟨answer, World.lookup_next hanswer a, hg⟩

/-- Whatever the others do, the answer can still be fetched. -/
theorem World.Told.after (h : w.Told q) {run : List Action} (hr : Absent q.side run) :
  (w.after run).Told q
  := by
  induction run generalizing w with
  | nil => exact h
  | cons a run ih =>
      obtain ⟨ha, hr⟩ := List.forall_mem_cons.mp hr
      exact ih (h.next ha) hr

/-- The requests in the mailbox are the questions of clients that are waiting.  Tickets are
given in order, first those that have been answered and last the next one. -/
structure World.Asked (w : World) (t : Option (Surroundings × Millis)) (asked : List Inquiry) :
    Prop where
  turn_eq : w.turn = t
  connected : w.mailbox.inbox.connected
  waiting : w.mailbox.inbox.waiting = asked.map fun q => ⟨q.ticket, q.request⟩
  client : ∀ q ∈ asked, w.client q.side = .waiting q.ticket q.next
  ordered : (w.answers.map Prod.fst ++ asked.map Inquiry.ticket ++
    [w.mailbox.inbox.next]).Pairwise (· < ·)
  settled : w.control.Settled

namespace World.Asked

theorem unanswered (h : w.Asked t asked) (hq : q ∈ asked) :
  w.answers.lookup q.ticket = none
  := by
  obtain ⟨-, -, hlt⟩ := List.pairwise_append.mp (List.pairwise_append.mp h.ordered).1
  rw [List.lookup_eq_none_iff]
  intro a ha
  rw [bne_iff_ne]
  apply ne_of_gt
  exact hlt _ (List.mem_map_of_mem ha) _ (List.mem_map_of_mem hq)

theorem side_ne_of_talking (h : w.Asked t asked) {c : Conversation}
    (hc : w.client i = .talking c) :
  ∀ q ∈ asked, q.side ≠ i
  := by
  rintro q hq rfl
  rw [h.client q hq] at hc
  cases hc

theorem side_ne_of_told (h : w.Asked t asked) (hq : w.Told q) :
  ∀ r ∈ asked, r.side ≠ q.side
  := by
  intro r hr hside
  have hclient := h.client r hr
  rw [hside, hq.client] at hclient
  obtain ⟨hticket, -⟩ := Client.waiting.inj hclient
  obtain ⟨a, ha, -⟩ := hq.answer
  rw [hticket, h.unanswered hr] at ha
  cases ha

/-- Every client asks one question at a time, so the inbox has room for a client that is not
waiting. -/
theorem length_lt_capacity (h : w.Asked t asked) (hi : ∀ q ∈ asked, q.side ≠ i) :
  asked.length < Inbox.capacity
  := by
  match asked with
  | [] => decide
  | [_] => exact Nat.one_lt_ofNat
  | q :: r :: _ =>
      have hq := h.client q List.mem_cons_self
      have hr := h.client r (List.mem_cons_of_mem _ List.mem_cons_self)
      rw [Side.eq_other_of_ne (hi q List.mem_cons_self)] at hq
      rw [Side.eq_other_of_ne (hi r (List.mem_cons_of_mem _ List.mem_cons_self)), hq] at hr
      obtain ⟨hticket, -⟩ := Client.waiting.inj hr
      obtain ⟨-, hlt, -⟩ := List.pairwise_append.mp (List.pairwise_append.mp h.ordered).1
      have hticketlt := List.rel_of_pairwise_cons hlt List.mem_cons_self
      omega

/-- A client that is not waiting goes on. -/
theorem become (h : w.Asked t asked) (hi : ∀ q ∈ asked, q.side ≠ i) (c : Client) :
  (w.become i c).Asked t asked
  := by
  refine ⟨h.turn_eq, h.connected, h.waiting, ?_, h.ordered, h.settled⟩
  intro q hq
  show Function.update w.client i c q.side = _
  rw [Function.update_of_ne (hi q hq)]
  exact h.client q hq

/-- A client asks a question. -/
theorem ask (h : w.Asked t asked) {r : ModelCar.Request} {next : Outcome → Conversation}
    (hc : w.client i = .talking (.ask r next)) :
  (w.step i).Asked t (asked ++ [⟨i, w.mailbox.inbox.next, r, next⟩])
  := by
  have hi := h.side_ne_of_talking hc
  have hroom : w.mailbox.inbox.waiting.length < Inbox.capacity := by
    rw [h.waiting, List.length_map]
    exact h.length_lt_capacity hi
  rw [step_of_room hc h.connected hroom]
  constructor
  · exact h.turn_eq
  · exact h.connected
  · rw [List.map_append, ← h.waiting]
    rfl
  · rw [List.forall_mem_append, List.forall_mem_singleton]
    use (h.become hi _).client
    exact Function.update_self _ _ _
  · show (_ ++ (asked ++ [_]).map Inquiry.ticket ++ [w.mailbox.inbox.next + 1]).Pairwise _
    rw [List.map_append, ← List.append_assoc, List.pairwise_append]
    use h.ordered, List.pairwise_singleton _ _
    intro m hm n hn
    obtain rfl := List.mem_singleton.mp hn
    obtain ⟨-, -, hlt⟩ := List.pairwise_append.mp h.ordered
    obtain hm | hm := List.mem_append.mp hm
    · exact (hlt m hm _ (List.mem_singleton_self _)).trans (Nat.lt_succ_self _)
    · obtain rfl := List.mem_singleton.mp hm
      apply Nat.lt_succ_self
  · exact h.settled

/-- A client fetches an answer. -/
theorem fetch (h : w.Asked t asked) (hq : w.Told q) :
  ∃ a, Granted q.request a ∧ (w.step q.side).Asked t asked ∧
    (w.step q.side).client q.side = .talking (q.next (.answered a))
  := by
  obtain ⟨a, ha, hg⟩ := hq.answer
  use a, hg
  rw [step_of_answer hq.client ha]
  use h.become (h.side_ne_of_told hq) _
  exact Function.update_self _ _ _

/-! ### A turn -/

/-- The oldest question is answered. -/
theorem serve {s : Surroundings × Millis} (h : w.Asked (some s) (q :: asked))
    (hq : Grantable q.request) :
  (w.serve none).Asked (some s) asked ∧ (w.serve none).Told q
  := by
  rw [serve_of_waiting (d := ⟨⟨q.ticket, q.request⟩, none⟩) h.turn_eq h.waiting]
  obtain ⟨a, ha, hg⟩ := hq.exists_answer h.settled q.ticket
  have hanswers : (w.handle ⟨⟨q.ticket, q.request⟩, none⟩
      (asked.map fun q => ⟨q.ticket, q.request⟩)).answers = w.answers ++ [(q.ticket, a)] := by
    rw [World.handle, ha]
  obtain ⟨hclient, hasked⟩ := List.forall_mem_cons.mp h.client
  constructor
  · refine ⟨h.turn_eq, h.connected, rfl, hasked, ?_, h.settled.handle _⟩
    rw [hanswers, List.map_append, List.append_assoc (w.answers.map _)]
    exact h.ordered
  · use hclient, a
    rw [hanswers]
    use lookup_concat_of_none (h.unanswered List.mem_cons_self) a

/-- All questions are answered, one after the other. -/
theorem after_serve {s : Surroundings × Millis} (h : w.Asked (some s) asked)
    (hg : ∀ q ∈ asked, Grantable q.request) :
  (w.after (List.replicate asked.length (.serve none))).Asked (some s) [] ∧
    ∀ q ∈ asked, (w.after (List.replicate asked.length (.serve none))).Told q
  := by
  induction asked generalizing w with
  | nil => exact ⟨h, List.forall_mem_nil _⟩
  | cons q asked ih =>
      obtain ⟨hq, hg⟩ := List.forall_mem_cons.mp hg
      obtain ⟨hrest, htold⟩ := h.serve hq
      obtain ⟨hdone, hall⟩ := ih hrest hg
      use hdone
      rw [List.forall_mem_cons]
      constructor
      · exact htold.after (absent_serve _)
      · exact hall

theorem sense (h : w.Asked none asked) (s : Surroundings) :
  (w.sense s).Asked (some (s, w.control.elapsed s.now)) asked
  := by
  rw [sense_of_no_turn h.turn_eq]
  refine ⟨rfl, h.connected, h.waiting, h.client, h.ordered, ?_⟩
  exact h.settled.congr (Control.sensed_setup w.control s) rfl

theorem finish {s : Surroundings × Millis} (h : w.Asked (some s) []) :
  w.finish.Asked none []
  := by
  rw [finish_of_none_waiting h.turn_eq h.waiting]
  exact ⟨rfl, h.connected, h.waiting, h.client, h.ordered, h.settled.finish _ _⟩

end World.Asked

/-- A turn in which a number of requests are served. -/
def turnServing (time number : Nat) : List Action :=
  .sense (Moment.plain time none).toSurroundings ::
    (List.replicate number (.serve none) ++ [.finish])

/-- A turn answers all questions. -/
theorem World.Asked.turn (h : w.Asked none asked) (hg : ∀ q ∈ asked, Grantable q.request)
    (time : Nat) :
  (w.after (turnServing time asked.length)).Asked none [] ∧
    ∀ q ∈ asked, (w.after (turnServing time asked.length)).Told q
  := by
  obtain ⟨hserved, htold⟩ := (h.sense (Moment.plain time none).toSurroundings).after_serve hg
  rw [turnServing, World.after_cons, World.after_append]
  use hserved.finish
  intro q hq
  exact (htold q hq).next (a := .finish) (by rintro ⟨⟩)

/-! ### Changes -/

/-- A client takes some steps. -/
def steps (i : Side) (number : Nat) : List Action :=
  List.replicate number (.step i)

section

variable {p : Patch Float32}

/-- A client asks for the status. -/
theorem World.Asked.reads (h : w.Asked t asked) (hc : w.client i = .talking (retune p)) :
  ∃ n, (w.after (steps i 1)).Asked t (asked ++ [⟨i, n, .query, resume status? (change p)⟩])
  := ⟨_, h.ask hc⟩

/-- A client that has been told the status asks for its change. -/
theorem World.Asked.changes (h : w.Asked t asked) {ticket : Nat}
    (hq : w.Told ⟨i, ticket, .query, resume status? (change p)⟩) :
  ∃ n u, u.IsClean ∧
    (w.after (steps i 2)).Asked t
      (asked ++ [⟨i, n, .retune (p.apply u) true, resume retuned? retuned⟩])
  := by
  obtain ⟨a, ha, hv, hc⟩ := h.fetch hq
  cases ha with
  | @query s hs => exact ⟨_, s.tuning, hs, hv.ask hc⟩

/-- A client that has been told that its change is made is confirmed. -/
theorem World.Asked.confirms (h : w.Asked t asked) {ticket : Nat} {u : Tuning Float32}
    {keep : Bool} (hq : w.Told ⟨i, ticket, .retune u keep, resume retuned? retuned⟩) :
  (w.after (steps i 2)).Asked t asked ∧ ((w.after (steps i 2)).client i).Confirmed
  := by
  obtain ⟨a, ha, hv, hc⟩ := h.fetch hq
  cases ha with
  | retune =>
      obtain ⟨entry, reply, hu, hreply⟩ := retuned_ok u.clamped
      replace hc : (w.step i).client i = .talking (.note entry (.done (some reply))) := by
        rw [← hu]
        exact hc
      have hs : (w.step i).step i = (w.step i).become i (.talking (.done (some reply))) := by
        rw [World.step, hc]
      show ((w.step i).step i).Asked t asked ∧ (((w.step i).step i).client i).Confirmed
      rw [hs]
      use hv.become (hv.side_ne_of_talking hc) _, reply, Function.update_self _ _ _

/-- A client makes its change, with a turn for each of its requests. -/
def changing (i : Side) (time : Nat) : List Action :=
  steps i 1 ++ turnServing time 1 ++ steps i 2 ++ turnServing (time + 20) 1 ++ steps i 2

/-- A client whose change is welcome is confirmed, when it makes it alone. -/
theorem World.Asked.changing (h : w.Asked none []) (hc : w.client i = .talking (retune p))
    (hp : Welcome p) (time : Nat) :
  (w.after (changing i time)).Asked none [] ∧
    ((w.after (changing i time)).client i).Confirmed
  := by
  obtain ⟨m, hreading⟩ := h.reads hc
  obtain ⟨hread, hstatus⟩ := hreading.turn (List.forall_mem_singleton.mpr .query) time
  obtain ⟨n, u, hu, hchanging⟩ := hread.changes (List.forall_mem_singleton.mp hstatus)
  obtain ⟨hchanged, hresult⟩ :=
    hchanging.turn (List.forall_mem_singleton.mpr (.retune (hp u hu))) (time + 20)
  simp only [Web.changing, World.after_append]
  exact hchanged.confirms (List.forall_mem_singleton.mp hresult)

end

/-! ### Two changes -/

theorem absent_steps {j : Side} (h : j ≠ i) (n : Nat) :
  Absent i (steps j n)
  := by
  intro a ha
  rw [List.eq_of_mem_replicate ha]
  rintro ⟨⟩
  exact h rfl

theorem absent_turnServing (time n : Nat) :
  Absent i (turnServing time n)
  := by
  intro a ha
  obtain rfl | ha := List.mem_cons.mp ha
  · rintro ⟨⟩
  · obtain ha | ha := List.mem_append.mp ha
    · exact absent_serve n a ha
    · rw [List.mem_singleton.mp ha]
      rintro ⟨⟩

theorem absent_changing {j : Side} (h : j ≠ i) (time : Nat) :
  Absent i (changing j time)
  := by
  unfold changing
  apply Absent.append
  · apply Absent.append
    · apply Absent.append
      · exact (absent_steps h 1).append (absent_turnServing _ 1)
      · exact absent_steps h 2
    · exact absent_turnServing _ 1
  · exact absent_steps h 2

section

variable {p : Side → Patch Float32}

/-- One client makes its change, and then the other one. -/
def inSuccession : List Action :=
  changing .first 1020 ++ changing .second 1060

/-- Both clients make their changes, with a turn for two requests at a time. -/
def together : List Action :=
  steps .first 1 ++ steps .second 1 ++ turnServing 1020 2 ++ steps .first 2 ++
    steps .second 2 ++ turnServing 1040 2 ++ steps .first 2 ++ steps .second 2

/-- Two clients whose changes are welcome are confirmed in succession. -/
theorem World.Asked.inSuccession (h : w.Asked none [])
    (hc : ∀ i, w.client i = .talking (retune (p i))) (hp : ∀ i, Welcome (p i)) (i : Side) :
  ((w.after inSuccession).client i).Confirmed
  := by
  have hne : Side.first ≠ Side.second := by decide
  obtain ⟨hv, hfirst⟩ := h.changing (hc .first) (hp .first) 1020
  have hc' : (w.after (Web.changing .first 1020)).client .second
      = .talking (retune (p .second)) := by
    rw [w.client_after (absent_changing hne 1020), hc]
  obtain ⟨-, hsecond⟩ := hv.changing hc' (hp .second) 1060
  rw [Web.inSuccession, World.after_append]
  cases i with
  | first =>
      rw [World.client_after _ (absent_changing hne.symm 1060)]
      exact hfirst
  | second => exact hsecond

/-- Two clients whose changes are welcome are confirmed together. -/
theorem World.Asked.together (h : w.Asked none [])
    (hc : ∀ i, w.client i = .talking (retune (p i))) (hp : ∀ i, Welcome (p i)) (i : Side) :
  ((w.after together).client i).Confirmed
  := by
  have hne : Side.first ≠ Side.second := by decide
  -- Both clients ask for the status, and are told it in the first turn.
  obtain ⟨m, h₁⟩ := h.reads (hc .first)
  have hc' : (w.after (steps .first 1)).client .second = .talking (retune (p .second)) := by
    rw [w.client_after (absent_steps hne 1), hc]
  obtain ⟨n, h₂⟩ := h₁.reads hc'
  obtain ⟨h₃, hread⟩ := h₂.turn
    (List.forall_mem_cons.mpr ⟨.query, List.forall_mem_singleton.mpr .query⟩) 1020
  obtain ⟨hfirst, hread⟩ := List.forall_mem_cons.mp hread
  have hsecond := List.forall_mem_singleton.mp hread
  -- Both ask for their changes, and the second turn makes them.
  obtain ⟨m, t, ht, h₄⟩ := h₃.changes hfirst
  obtain ⟨n, u, hu, h₅⟩ := h₄.changes (hsecond.after (absent_steps hne 2))
  obtain ⟨h₆, hchanged⟩ := h₅.turn (List.forall_mem_cons.mpr ⟨.retune (hp .first t ht),
    List.forall_mem_singleton.mpr (.retune (hp .second u hu))⟩) 1040
  obtain ⟨hfirst, hchanged⟩ := List.forall_mem_cons.mp hchanged
  have hsecond := List.forall_mem_singleton.mp hchanged
  obtain ⟨h₇, hfirst⟩ := h₆.confirms hfirst
  obtain ⟨-, hsecond⟩ := h₇.confirms (hsecond.after (absent_steps hne 2))
  simp only [Web.together, World.after_append]
  cases i with
  | first =>
      rw [World.client_after _ (absent_steps hne.symm 2)]
      exact hfirst
  | second => exact hsecond

end

end Web

end ModelCar
