import ModelCar.Proofs.Web.Progress

/-!
# Two clients that change the tuning

Whatever the two clients and the control loop do and in whatever order, either one of the
clients has lost its conversation, so that it will not be confirmed, or the mailbox, the
answers and the tuning in use are what the course of the two changes says.  So, when both
clients are confirmed, it depends on the order of their requests whether both changes are
held.
-/

namespace ModelCar

namespace Web

open Tuning (Patch)

/-! ### The course of both changes -/

variable {p : Side → Patch Float32} {base : Tuning Float32} {stage : Side → Stage}
  {waiting : Side → List Ticketed} {w : World} {i : Side}

/-- The world is what the course of the two changes says: the requests in the mailbox are
those of the clients, every ticket belongs to one request, and the tuning in use has come
about by the requests that were served. -/
structure Matches (p : Side → Patch Float32) (base : Tuning Float32) (w : World)
    (waiting : Side → List Ticketed) (stage : Side → Stage) : Prop where
  follows : ∀ i, Follows (p i) w.answers (w.client i) (waiting i) (stage i)
  perm : ∀ i, w.mailbox.inbox.waiting.Perm (waiting i ++ waiting i.other)
  distinct : ∀ i, ∀ d ∈ waiting i, ∀ e ∈ waiting i.other, d.ticket ≠ e.ticket
  waiting_lt : ∀ i, ∀ d ∈ waiting i, d.ticket < w.mailbox.inbox.next
  answers_lt : ∀ a ∈ w.answers, a.1 < w.mailbox.inbox.next
  course : Course p base stage w.served w.control.tuning

theorem Side.forall_iff (i : Side) {P : Side → Prop} :
  (∀ j, P j) ↔ P i ∧ P i.other
  := by
  constructor
  · intro h
    exact ⟨h i, h i.other⟩
  · intro ⟨hi, ho⟩ j
    obtain rfl | hj := eq_or_ne j i
    · exact hi
    · rw [Side.eq_other_of_ne hj]
      exact ho

/-- One client and its requests change, and further answers are given, but not to the
other client. -/
theorem Matches.update (h : Matches p base w waiting stage) {v : World} {c : Client}
    {requests : List Ticketed} {st : Stage} {more : List (Nat × Answer)}
    (hclient : v.client = Function.update w.client i c)
    (hanswers : v.answers = w.answers ++ more)
    (hmore : ∀ d ∈ waiting i.other, more.lookup d.ticket = none)
    (hfollows : Follows (p i) v.answers c requests st)
    (hperm : v.mailbox.inbox.waiting.Perm (requests ++ waiting i.other))
    (hdistinct : ∀ d ∈ requests, ∀ e ∈ waiting i.other, d.ticket ≠ e.ticket)
    (hnext : w.mailbox.inbox.next ≤ v.mailbox.inbox.next)
    (hlt : ∀ d ∈ requests, d.ticket < v.mailbox.inbox.next)
    (hmorelt : ∀ a ∈ more, a.1 < v.mailbox.inbox.next)
    (hcourse : Course p base (Function.update stage i st) v.served v.control.tuning) :
  Matches p base v (Function.update waiting i requests) (Function.update stage i st)
  := by
  have hne := i.other_ne
  constructor
  · rw [Side.forall_iff i, hclient]
    simp only [Function.update_self, Function.update_of_ne hne]
    use hfollows
    rw [hanswers]
    exact (h.follows i.other).append hmore
  · rw [Side.forall_iff i]
    simp only [Function.update_self, Function.update_of_ne hne, Side.other_other]
    exact ⟨hperm, hperm.trans List.perm_append_comm⟩
  · rw [Side.forall_iff i]
    simp only [Function.update_self, Function.update_of_ne hne, Side.other_other]
    use hdistinct
    intro d hd e he
    exact (hdistinct e he d hd).symm
  · rw [Side.forall_iff i]
    simp only [Function.update_self, Function.update_of_ne hne]
    use hlt
    intro d hd
    exact (h.waiting_lt i.other d hd).trans_le hnext
  · rw [hanswers, List.forall_mem_append]
    use fun a ha => (h.answers_lt a ha).trans_le hnext
  · exact hcourse

/-! ### Steps of a client -/

/-- A client goes on without a request. -/
theorem Matches.become (h : Matches p base w waiting stage) {c : Client}
    (hf : Follows (p i) w.answers c (waiting i) (stage i)) :
  Matches p base (w.become i c) waiting stage
  := by
  refine ⟨?_, h.perm, h.distinct, h.waiting_lt, h.answers_lt, h.course⟩
  rw [Side.forall_iff i]
  simp only [World.become, Function.update_self, Function.update_of_ne i.other_ne]
  use hf
  apply h.follows

/-- A client puts a request into the mailbox, and waits for the answer. -/
theorem Matches.post (h : Matches p base w waiting stage) {r : ModelCar.Request}
    {next : Outcome → Conversation} (hw : waiting i = [])
    (hf : w.answers.lookup w.mailbox.inbox.next = none →
      Follows (p i) w.answers (.waiting w.mailbox.inbox.next next) [⟨w.mailbox.inbox.next, r⟩]
        (stage i)) :
  Matches p base
    ({ w with mailbox := w.mailbox.posted r }.become i (.waiting w.mailbox.inbox.next next))
    (Function.update waiting i [⟨w.mailbox.inbox.next, r⟩]) stage
  := by
  -- The ticket is new, so no answer that has been given is one to it.
  have hnone : w.answers.lookup w.mailbox.inbox.next = none := by
    rw [List.lookup_eq_none_iff]
    intro a ha
    rw [bne_iff_ne]
    apply (h.answers_lt a ha).ne'
  have hc := h.course
  rw [← Function.update_eq_self i stage] at hc
  have hu := h.update
    (v := { w with mailbox := w.mailbox.posted r }.become i (.waiting _ next)) rfl
    (List.append_nil _).symm (fun _ _ => rfl) (hf hnone) ?_ ?_ (Nat.le_succ _) ?_
    (List.forall_mem_nil _) hc
  · rw [Function.update_eq_self] at hu
    exact hu
  · have hp := h.perm i
    rw [hw] at hp
    apply (hp.append_right _).trans List.perm_append_comm
  · intro d hd e he
    obtain rfl := List.mem_singleton.mp hd
    apply (h.waiting_lt i.other e he).ne'
  · intro d hd
    obtain rfl := List.mem_singleton.mp hd
    apply Nat.lt_succ_self

/-- One of the conversations is lost, or the world is what the course of the two changes
says. -/
def World.Explained (p : Side → Patch Float32) (base : Tuning Float32) (w : World) : Prop :=
  w.Lost ∨ ∃ waiting stage, Matches p base w waiting stage

/-- A client that is told something goes on with what it has been told. -/
theorem Matches.fetch (h : Matches p base w waiting stage) {ticket : Nat}
    {next : Outcome → Conversation} {a : Answer} (hc : w.client i = .waiting ticket next)
    (ha : w.answers.lookup ticket = some a)
    (hf : Follows (p i) w.answers (.talking (next (.answered a))) (waiting i) (stage i)) :
  (w.step i).Explained p base
  := by
  rw [World.step_of_answer hc ha]
  exact .inr ⟨_, _, h.become hf⟩

/-- A client that asks waits for the answer, or its conversation is lost. -/
theorem Matches.ask (h : Matches p base w waiting stage) {r : ModelCar.Request} {α : Type}
    {expected : Answer → Option α} {next : α → Conversation}
    (hc : w.client i = .talking (.ask r (resume expected next))) (hw : waiting i = [])
    (hf : ∀ ticket, w.answers.lookup ticket = none →
      Follows (p i) w.answers (.waiting ticket (resume expected next)) [⟨ticket, r⟩] (stage i)) :
  (w.step i).Explained p base
  := by
  obtain hs | ⟨reason, hs⟩ := World.step_of_ask hc
  · rw [hs]
    exact .inr ⟨_, _, h.post hw (hf _)⟩
  · rw [hs]
    left
    apply World.become_lost
    exact hopeless_resume expected next (by rintro a ⟨⟩)

/-- A client takes its next step. -/
theorem Matches.step (h : Matches p base w waiting stage) (i : Side) :
  (w.step i).Explained p base
  := by
  have hf := h.follows i
  generalize hc : w.client i = c at hf
  generalize hw : waiting i = requests at hf
  generalize hs : stage i = st at hf
  have hstay (hn : w.step i = w) : (w.step i).Explained p base := by
    rw [hn]
    exact .inr ⟨_, _, h⟩
  cases hf with
  | opening =>
      rw [retune_eq] at hc
      apply h.ask hc hw
      intro ticket hn
      rw [hs]
      exact .asking hn
  | asking hn => exact hstay (World.step_of_no_answer hc hn)
  | told ha =>
      apply h.fetch hc ha
      rw [hw, hs]
      exact .knowing _
  | knowing s =>
      apply h.ask hc hw
      intro ticket hn
      rw [hs]
      exact .changing s hn
  | changing s hn => exact hstay (World.step_of_no_answer hc hn)
  | changed ha =>
      apply h.fetch hc ha
      rw [hw, hs]
      exact .leaving _
  | leaving t =>
      obtain ⟨entry, reply, ht, -⟩ := retuned_ok t
      rw [ht] at hc
      have hn : w.step i = w.become i (.talking (.done (some reply))) := by
        simp only [World.step, hc]
      rw [hn]
      right
      refine ⟨_, _, h.become ?_⟩
      rw [hw, hs]
      exact .gone _
  | gone reply =>
      apply hstay
      simp only [World.step, hc]

/-- A client that does not wait any longer loses its conversation. -/
theorem Matches.giveUp (h : Matches p base w waiting stage) (i : Side) :
  (w.giveUp i).Explained p base
  := by
  have hf := h.follows i
  generalize waiting i = requests at hf
  generalize stage i = st at hf
  unfold World.giveUp
  split
  · exact .inr ⟨_, _, h⟩
  · rename_i ticket next hc
    left
    apply World.become_lost
    rw [hc] at hf
    cases hf with
    | asking => exact hopeless_resume _ _ (by rintro a ⟨⟩)
    | told => exact hopeless_resume _ _ (by rintro a ⟨⟩)
    | changing => exact hopeless_resume _ _ (by rintro a ⟨⟩)
    | changed => exact hopeless_resume _ _ (by rintro a ⟨⟩)

/-! ### Requests that are served -/

/-- The oldest request is one of a client, and the others are those of the other one. -/
theorem Matches.exists_pending (h : Matches p base w waiting stage) {d : Ticketed}
    {rest : List Ticketed} (hw : w.mailbox.inbox.waiting = d :: rest) :
  ∃ i, waiting i = [d] ∧ rest.Perm (waiting i.other)
  := by
  have hmem : ∃ i, d ∈ waiting i := by
    have hd : d ∈ w.mailbox.inbox.waiting := by
      rw [hw]
      apply List.mem_cons_self
    obtain hd | hd := List.mem_append.mp ((h.perm .first).mem_iff.mp hd)
    · exact ⟨_, hd⟩
    · exact ⟨_, hd⟩
  obtain ⟨i, hd⟩ := hmem
  obtain hi | ⟨e, hi⟩ := (h.follows i).pending_cases
  · rw [hi] at hd
    cases hd
  · rw [hi] at hd
    obtain rfl := List.mem_singleton.mp hd
    use i, hi
    have hp := h.perm i
    rw [hw, hi] at hp
    exact hp.cons_inv

/-- A request of a client is served and answered. -/
theorem Matches.served (h : Matches p base w waiting stage) {d : Delivery}
    {rest : List Ticketed} {a : Answer} {st : Stage} (hi : waiting i = [d.toTicketed])
    (hr : rest.Perm (waiting i.other))
    (ha : (w.control.handle d).2.filterMap answer? = [(d.ticket, a)])
    (hf : Follows (p i) (w.answers ++ [(d.ticket, a)]) (w.client i) [] st)
    (hc : Course p base (Function.update stage i st) (w.served ++ [d.request])
      (w.control.handle d).1.tuning) :
  Matches p base (w.handle d rest) (Function.update waiting i []) (Function.update stage i st)
  := by
  have hd : d.toTicketed ∈ waiting i := by
    rw [hi]
    apply List.mem_cons_self
  have hanswers : (w.handle d rest).answers = w.answers ++ [(d.ticket, a)] := by
    rw [← ha]
    rfl
  rw [← hanswers] at hf
  apply h.update (v := w.handle d rest) (Function.update_eq_self i w.client).symm hanswers ?_ hf hr
    (List.forall_mem_nil _) le_rfl (List.forall_mem_nil _) ?_ hc
  · intro e he
    rw [List.lookup_cons, beq_eq_false_iff_ne.mpr (h.distinct i _ hd e he).symm]
    rfl
  · intro b hb
    obtain rfl := List.mem_singleton.mp hb
    apply h.waiting_lt i _ hd

/-- The oldest request is served. -/
theorem Matches.handle (h : Matches p base w waiting stage) {d : Delivery}
    {rest : List Ticketed} (hw : w.mailbox.inbox.waiting = d.toTicketed :: rest) :
  (w.handle d rest).Explained p base
  := by
  obtain ⟨i, hi, hr⟩ := h.exists_pending hw
  have hf := h.follows i
  rw [hi] at hf
  obtain ⟨⟨ticket, request⟩, fault⟩ := d
  generalize hc : w.client i = c at hf
  generalize hs : stage i = st at hf
  cases hf with
  | asking hn =>
      right
      refine ⟨_, _, h.served hi hr rfl ?_ (h.course.query hs)⟩
      rw [hc]
      exact .told (lookup_concat_of_none hn _)
  | changing s hn =>
      have ha := answers_retune w.control ((p i).apply s.tuning) true ticket fault
      cases hresult : (w.control.retune ((p i).apply s.tuning) true fault).1 with
      | error e =>
          -- The client is still waiting, but whatever it does now, it is not confirmed.
          left
          use i
          show (w.client i).Lost (w.answers ++ _)
          rw [ha, hc, hresult]
          use hopeless_resume retuned? retuned (by rintro a ⟨⟩)
          use .retune (.error e), lookup_concat_of_none hn _
          exact hopeless_retuned e
      | ok t =>
          right
          rw [hresult] at ha
          have hfollows : Follows (p i) (w.answers ++ [(ticket, .retune (.ok t))])
              (w.client i) [] .written := by
            rw [hc]
            exact .changed (lookup_concat_of_none hn _)
          refine ⟨_, _, h.served hi hr ha hfollows ?_⟩
          have htuning : (w.control.retune ((p i).apply s.tuning) true fault).2.1.tuning
              = ((p i).apply s.tuning).clamped := by
            obtain ⟨ht, -, hu, -⟩ := Control.retune_of_ok hresult
            rw [hu, ht]
            rfl
          show Course p base _ _ (w.control.retune ((p i).apply s.tuning) true fault).2.1.tuning
          rw [htuning]
          exact h.course.change hs

/-! ### A run -/

/-- Of the control loop, only the tuning in use matters. -/
theorem Matches.congr (h : Matches p base w waiting stage) {c : Control}
    (hc : c.tuning = w.control.tuning) (turn : Option (Surroundings × Millis)) :
  Matches p base { w with control := c, turn } waiting stage
  := by
  refine ⟨h.follows, h.perm, h.distinct, h.waiting_lt, h.answers_lt, ?_⟩
  show Course p base stage w.served c.tuning
  rw [hc]
  exact h.course

/-- A turn begins. -/
theorem Matches.sense (h : Matches p base w waiting stage) (s : Surroundings) :
  (w.sense s).Explained p base
  := by
  right
  use waiting, stage
  unfold World.sense
  split
  · exact h
  · apply h.congr
    exact congrArg Setup.tuning (Control.sensed_setup w.control s)

/-- A turn ends. -/
theorem Matches.finish (h : Matches p base w waiting stage) :
  w.finish.Explained p base
  := by
  right
  use waiting, stage
  unfold World.finish
  split
  · apply h.congr
    exact congrArg Setup.tuning (Control.finish_setup w.control _ _)
  · exact h

theorem World.Explained.next (h : w.Explained p base) (a : Action) :
  (w.next a).Explained p base
  := by
  obtain h | ⟨waiting, stage, h⟩ := h
  · left
    apply h.next
  · cases a with
    | step i => exact h.step i
    | giveUp i => exact h.giveUp i
    | sense s => exact h.sense s
    | serve fault =>
        rw [World.next]
        obtain hs | ⟨d, rest, hw, hs⟩ := w.serve_cases fault
        · rw [hs]
          exact .inr ⟨_, _, h⟩
        · rw [hs]
          exact h.handle hw
    | finish => exact h.finish

theorem World.Explained.after (h : w.Explained p base) (run : List Action) :
  (w.after run).Explained p base
  := by
  induction run generalizing w with
  | nil => exact h
  | cons a run ih =>
      rw [World.after_cons]
      apply ih
      apply h.next

/-- Two clients are about to make their changes, and no request is waiting. -/
def World.opening (c : Control) (p : Side → Patch Float32) : World where
  control := c
  mailbox := {}
  answers := []
  client i := .talking (Web.serve (.retune (p i)))
  turn := none
  served := []

theorem World.opening_explained (c : Control) (p : Side → Patch Float32) :
  (World.opening c p).Explained p c.tuning
  := by
  right
  use fun _ => [], fun _ => .unread
  constructor
  · intro i
    exact .opening
  · intro i
    exact .nil
  · intro i
    apply List.forall_mem_nil
  · intro i
    apply List.forall_mem_nil
  · apply List.forall_mem_nil
  · exact .before (fun i => .inl rfl) (List.forall_mem_nil _)

theorem World.opening_asked {c : Control} (h : c.Settled) (p : Side → Patch Float32) :
  (World.opening c p).Asked none []
  := by
  constructor
  · rfl
  · rfl
  · rfl
  · apply List.forall_mem_nil
  · apply List.pairwise_singleton
  · exact h

/-- When two clients that change different fields, and not the mode, are both confirmed,
then, whatever they and the control loop have done in whatever order, the change that was
made last is held, brought in range; and the other one is held as well unless both clients
were told the status before either change was made, and the tuning did not have its values
before. -/
theorem changes_held {car : Car} (h : car.IsReachable) (hm : ∀ i, (p i).mode = none)
    (hd : (p .first).Disjoint (p .second)) (run : List Action)
    (hc : ∀ i, (((World.opening car.control p).after run).client i).Confirmed) :
  ∃ i, LastChange (p i) ((World.opening car.control p).after run).served ∧
    (p i).HeldBy ((World.opening car.control p).after run).control.tuning ∧
    ((p i.other).HeldBy ((World.opening car.control p).after run).control.tuning ↔
      ¬ QueriesFirst ((World.opening car.control p).after run).served ∨
        (p i.other).HeldBy car.control.tuning)
  := by
  obtain ⟨i, hl⟩ | ⟨waiting, stage, hmatches⟩ :=
    (World.opening_explained car.control p).after run
  · cases (hc i).not_lost hl
  · have hwritten (i : Side) : stage i = .written := (hmatches.follows i).written (hc i)
    apply hmatches.course.heldBy hwritten hm hd
    exact h.settled.isClean.2

/-! ### A gain and a cutoff -/

/-- One client changes a gain, and the other one a cutoff. -/
def gainAndCutoff : Side → Patch Float32
  | .first => { (default : Patch Float32) with attitudeGain := some 0.5 }
  | .second => { (default : Patch Float32) with cutoff := some 20.0 }

theorem gainAndCutoff_welcome (i : Side) :
  Welcome (gainAndCutoff i)
  := by
  cases i with
  | first => exact welcome_of_maxCorrection rfl rfl
  | second => exact welcome_of_maxCorrection rfl rfl

/-- A car after a plain start. -/
def plainCar : Car :=
  (⟨.ofSettings {}, none⟩ : Car).after [.start .plain]

/-- In succession both changes are held. -/
theorem gain_and_cutoff_kept :
  plainCar.IsReachable ∧ (∀ i, (gainAndCutoff i).mode = none) ∧
    (gainAndCutoff .first).Disjoint (gainAndCutoff .second) ∧
    (∀ i, (((World.opening plainCar.control gainAndCutoff).after inSuccession).client
      i).Confirmed) ∧
    ∀ i, (gainAndCutoff i).HeldBy
      ((World.opening plainCar.control gainAndCutoff).after inSuccession).control.tuning
  := by
  have hr : plainCar.IsReachable := ⟨{}, none, [.start .plain], rfl⟩
  have hm (i : Side) : (gainAndCutoff i).mode = none := by
    cases i with
    | first => rfl
    | second => rfl
  have hd : (gainAndCutoff .first).Disjoint (gainAndCutoff .second) := by decide
  have hc := (World.opening_asked hr.settled gainAndCutoff).inSuccession (fun _ => rfl)
    gainAndCutoff_welcome
  have hq : ¬ QueriesFirst
      ((World.opening plainCar.control gainAndCutoff).after inSuccession).served := by
    decide +kernel
  refine ⟨hr, hm, hd, hc, ?_⟩
  obtain ⟨i, -, hi, ho⟩ := changes_held hr hm hd inSuccession hc
  rw [Side.forall_iff i]
  exact ⟨hi, ho.mpr (.inl hq)⟩

/-- Together both clients are confirmed, and the gain is what it was before. -/
theorem gain_lost :
  (∀ i, (gainAndCutoff i).mode = none ∧ true ∈ (gainAndCutoff i).named) ∧
    (gainAndCutoff .first).Disjoint (gainAndCutoff .second) ∧
    (∀ i, (((World.opening plainCar.control gainAndCutoff).after together).client
      i).Confirmed) ∧
    ¬ (gainAndCutoff .first).HeldBy
      ((World.opening plainCar.control gainAndCutoff).after together).control.tuning
  := by
  have hr : plainCar.IsReachable := ⟨{}, none, [.start .plain], rfl⟩
  refine ⟨?_, by decide, ?_, by decide +kernel⟩
  · intro i
    cases i with
    | first => decide
    | second => decide
  · exact (World.opening_asked hr.settled gainAndCutoff).together (fun _ => rfl)
      gainAndCutoff_welcome

end Web

end ModelCar
