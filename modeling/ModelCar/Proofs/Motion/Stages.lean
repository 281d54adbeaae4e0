import ModelCar.Proofs.Motion.Session

/-!
# Calibrating in stages

A calibration is started, fed with samples, given data from elsewhere, and told its forward
direction, in any order.  A session begins with every start that is not refused.  The state
of the calibration is the one of its last session: it collects as long as fewer samples
have been fed than the session asks for, and then it has ended.  Only the last sample of a
session changes the data, and only the part of them that the session is about.
-/

namespace ModelCar.Calibration

section
variable {α β : Type} {c : Calibration α β}

/-! ### Sessions -/

/-- What the last start that was not refused has asked for, and how many samples have been
fed since then. -/
structure Session where
  mode : Mode
  target : Nat
  fed : Nat
deriving DecidableEq

variable {last : Option Session}

/-- A calibration is idle before its first session; it runs as long as its last session
lacks samples; and then it has ended. -/
inductive Follows (c : Calibration α β) : Option Session → Prop where
  | idle (hs : c.status = .idle) : Follows c none
  | running {s : Session} (hs : c.status = .collecting) (hm : c.mode = s.mode)
      (ht : c.target = s.target) (hc : c.collected = s.fed) (hlt : s.fed < s.target) :
      Follows c (some s)
  | ended {s : Session} (hs : c.status = .done ∨ c.status = .failed) (hm : c.mode = s.mode)
      (ht : c.target = s.target) (hc : c.collected = s.target) (hle : s.target ≤ s.fed) :
      Follows c (some s)

/-- The state of the last session does not depend on the data. -/
theorem Follows.withData (h : c.Follows last) (d : CalibrationData α) :
  Follows { c with data := d } last
  := by
  cases h with
  | idle hs => exact .idle hs
  | running hs hm ht hc hlt => exact .running hs hm ht hc hlt
  | ended hs hm ht hc hle => exact .ended hs hm ht hc hle

/-- A running calibration lacks samples. -/
theorem Follows.collected_lt (h : c.Follows last) (hs : c.status = .collecting) :
  c.collected < c.target
  := by
  cases h with
  | idle h => cases hs.symm.trans h
  | running _ _ ht hc hlt => rwa [ht, hc]
  | ended h =>
      obtain h | h := h
      · cases hs.symm.trans h
      · cases hs.symm.trans h

/-- The numbers of samples that the moments have been computed from. -/
def Tally.counts (t : Tally α β) : List Nat :=
  (t.rate.toList ++ t.acceleration.toList).map Moments.count

/-- No counter is beyond the target, which is a word of 32 bits. -/
structure Counted (c : Calibration α β) : Prop where
  target_lt : c.target < UInt32.size
  collected_le : c.collected ≤ c.target
  counts_le : ∀ n ∈ c.tally.counts, n ≤ c.collected

theorem Counted.withData (h : c.Counted) (d : CalibrationData α) :
  Counted { c with data := d }
  := ⟨h.target_lt, h.collected_le, h.counts_le⟩

/-- Some data with what a session of a mode finds out put in from others. -/
def Mode.found (mode : Mode) (d e : CalibrationData α) : CalibrationData α :=
  match mode with
  | .gyro => { d with rateBias := e.rateBias, valid := true }
  | .full =>
    { d with
      rateBias := e.rateBias
      accelerationBias := e.accelerationBias
      gravity := e.gravity
      valid := true }
  | .forward => { d with forward := e.forward }

end

/-! ### Starting -/

/-- The number of samples of a mode, unless another one is given. -/
def Mode.usualTarget : Mode → Nat
  | .forward => defaultPushTarget
  | _ => defaultRestTarget

/-- The number of samples that a start asks for, where `0` stands for the usual number. -/
def Mode.target (mode : Mode) (samples : UInt32) : Nat :=
  if samples = 0 then mode.usualTarget else samples.toNat

theorem Mode.target_pos (mode : Mode) (samples : UInt32) :
  0 < mode.target samples
  := by
  unfold target
  split
  · cases mode <;> decide
  · rename_i h
    exact UInt32.pos_iff_ne_zero.mpr h

theorem Mode.target_lt (mode : Mode) (samples : UInt32) :
  mode.target samples < UInt32.size
  := by
  unfold target
  split
  · cases mode <;> decide
  · exact samples.toNat_lt_size

variable {α β : Type} [Scalar β] [Precision α β]
variable {c : Calibration α β} {last : Option Session}

/-- The second stage is refused as long as the data are not valid or hold no direction of
gravity. -/
def Refuses (c : Calibration α β) (mode : Mode) : Prop :=
  mode = .forward ∧
    (¬ c.data.valid ∨ (c.data.gravity.lengthSq : β) < Vector3.smallestLengthSq)

instance (c : Calibration α β) (mode : Mode) : Decidable (c.Refuses mode) :=
  inferInstanceAs (Decidable (_ ∧ _))

theorem refuses_forward_iff (c : Calibration α β) :
  c.Refuses .forward ↔ ¬ c.hasGravity
  := by simp [Refuses, hasGravity, or_iff_not_imp_left]

/-- A start is refused, or it begins a session. -/
theorem start_eq (c : Calibration α β) (mode : Mode) (samples : UInt32) :
  c.start mode samples.toNat =
    if c.Refuses mode then .error .noGravity
    else .ok (c.collect mode (mode.target samples))
  := by
  have hzero : samples.toNat = 0 ↔ samples = 0 := UInt32.toNat_inj (b := 0)
  cases mode with
  | forward =>
      simp only [start, refuses_forward_iff, Mode.target, Mode.usualTarget, hzero, ite_not]
  | gyro | full =>
      rw [if_neg (by rintro ⟨⟨⟩, -⟩)]
      simp only [start, Mode.target, Mode.usualTarget, hzero]

variable [Scalar α]

/-! ### Operations -/

/-- What is done to a calibration. -/
inductive Operation (α : Type) where
  | start (mode : Mode) (samples : UInt32)
  | feed (s : Sample α)
  | load (d : CalibrationData α)
  | setForward (v : Vector3 α)
deriving DecidableEq

/-- The calibration after an operation; a start that is refused leaves it as it is. -/
def perform (c : Calibration α β) : Operation α → Calibration α β
  | .start mode samples => (c.start mode samples.toNat).toOption.getD c
  | .feed s => c.feed s
  | .load d => c.load d
  | .setForward v => c.setForward v

/-- The last session after an operation. -/
def nextSession (c : Calibration α β) (last : Option Session) :
    Operation α → Option Session
  | .start mode samples =>
    if c.Refuses mode then last else some ⟨mode, mode.target samples, 0⟩
  | .feed _ => last.map fun s => { s with fed := s.fed + 1 }
  | .load _ => last
  | .setForward _ => last

/-- The calibration after a run of operations. -/
def after (c : Calibration α β) (run : List (Operation α)) : Calibration α β :=
  run.foldl perform c

/-- The last session after a run of operations. -/
def sessionAfter (c : Calibration α β) (last : Option Session) :
    List (Operation α) → Option Session
  | [] => last
  | op :: run => (c.perform op).sessionAfter (c.nextSession last op) run

theorem after_concat (c : Calibration α β) (run : List (Operation α)) (op : Operation α) :
  c.after (run ++ [op]) = (c.after run).perform op
  := List.foldl_concat ..

theorem sessionAfter_concat (c : Calibration α β) (last : Option Session)
    (run : List (Operation α)) (op : Operation α) :
  c.sessionAfter last (run ++ [op]) =
    (c.after run).nextSession (c.sessionAfter last run) op
  := by
  induction run generalizing c last with
  | nil => rfl
  | cons first run ih => exact ih _ _

theorem perform_start (c : Calibration α β) (mode : Mode) (samples : UInt32) :
  c.perform (.start mode samples) =
    if c.Refuses mode then c else c.collect mode (mode.target samples)
  := by
  rw [perform, start_eq]
  split
  · rfl
  · rfl

/-- Loading touches nothing but the data. -/
theorem load_eq (c : Calibration α β) (d : CalibrationData α) :
  c.load d = { c with data := (c.load d).data }
  := by
  unfold load
  split
  · rfl
  · rfl

/-! ### A sample -/

/-- A session changes only what it is about. -/
theorem found_of_result {t : Tally α β} {mode : Mode} {d e : CalibrationData α}
    (h : t.result? mode d = some e) :
  e = mode.found d e
  := by
  cases mode with
  | gyro | full =>
      simp only [Tally.result?] at h
      split at h
      · cases h
      · cases h
        rfl
  | forward =>
      simp only [Tally.result?] at h
      split at h
      · cases h
      · split at h
        · cases h
          rfl
        · cases h
          rfl

/-- A session that ends has failed and leaves the data as they are, or it is done. -/
theorem finish_cases (c : Calibration α β) :
  c.finish = { c with status := .failed } ∨
    ∃ e, e = c.mode.found c.data e ∧ c.finish = { c with data := e, status := .done }
  := by
  unfold finish
  split
  · right
    rename_i e he
    exact ⟨e, found_of_result he, rfl⟩
  · left
    rfl

/-- A running calibration with one more sample. -/
def sampled (c : Calibration α β) (s : Sample α) : Calibration α β :=
  { c with
    tally := c.tally.add c.mode c.data s
    collected := c.collected + 1 }

theorem feed_of_collecting (h : c.status = .collecting) (s : Sample α) :
  c.feed s = if c.target ≤ c.collected + 1 then (c.sampled s).finish else c.sampled s
  := if_pos h

theorem Follows.feed (h : c.Follows last) (x : Sample α) :
  (c.feed x).Follows (c.nextSession last (.feed x))
  := by
  cases h with
  | idle hs =>
      rw [feed_of_ne (by simp [hs])]
      exact .idle hs
  | @running s hs hm ht hc hlt =>
      rw [feed_of_collecting hs, ht, hc]
      by_cases hlast : s.target ≤ s.fed + 1
      · have heq : c.collected + 1 = s.target := by omega
        rw [if_pos hlast]
        obtain h | ⟨e, -, h⟩ := finish_cases (c.sampled x)
        · rw [h]
          exact .ended (.inr rfl) hm ht heq hlast
        · rw [h]
          exact .ended (.inl rfl) hm ht heq hlast
      · rw [if_neg hlast]
        exact .running hs hm ht (congrArg (· + 1) hc) (Nat.lt_of_not_le hlast)
  | ended hs hm ht hc hle =>
      rw [feed_of_ne (by obtain hs | hs := hs <;> simp [hs])]
      exact .ended hs hm ht hc (Nat.le_succ_of_le hle)

omit [Precision α β] [Scalar α] in
/-- Without samples every counter is zero. -/
theorem Tally.counts_empty :
  ∀ k ∈ (empty : Tally α β).counts, k ≤ 0
  := by
  show ∀ k ∈ List.replicate 6 0, k ≤ 0
  decide

/-- A sample counts at most once for every axis. -/
theorem Tally.counts_add {t : Tally α β} {n : Nat} (h : ∀ k ∈ t.counts, k ≤ n)
    (mode : Mode) (d : CalibrationData α) (s : Sample α) :
  ∀ k ∈ (t.add mode d s).counts, k ≤ n + 1
  := by
  simp only [counts, Vector3.toList, List.cons_append, List.nil_append, List.map_cons,
    List.map_nil, List.forall_mem_cons] at h ⊢
  cases mode with
  | gyro | full =>
      simp only [add, pushAll, Vector3.zipWith, Moments.push]
      grind
  | forward =>
      simp only [add]
      split
      · grind
      · grind

/-- A running calibration has room for one more sample. -/
theorem Counted.feed (h : c.Counted) (hlt : c.status = .collecting → c.collected < c.target)
    (x : Sample α) :
  (c.feed x).Counted
  := by
  by_cases hs : c.status = .collecting
  · have hx : (c.sampled x).Counted :=
      ⟨h.target_lt, hlt hs, Tally.counts_add h.counts_le c.mode c.data x⟩
    rw [feed_of_collecting hs]
    split
    · obtain hf | ⟨e, -, hf⟩ := finish_cases (c.sampled x)
      · rw [hf]
        exact ⟨hx.target_lt, hx.collected_le, hx.counts_le⟩
      · rw [hf]
        exact ⟨hx.target_lt, hx.collected_le, hx.counts_le⟩
    · exact hx
  · rw [feed_of_ne hs]
    exact h

/-- A sample of a session that does not fail or end before changes no data but those that
the session is about, and these only when it is the last one. -/
theorem feed_cases (hs : c.status = .collecting) (hlt : c.collected < c.target)
    (x : Sample α) :
  c.collected + 1 < c.target ∧
      (c.feed x).status = .collecting ∧ (c.feed x).data = c.data ∨
    c.collected + 1 = c.target ∧
      ((c.feed x).status = .failed ∧ (c.feed x).data = c.data ∨
        (c.feed x).status = .done ∧ (c.feed x).data = c.mode.found c.data (c.feed x).data)
  := by
  rw [feed_of_collecting hs]
  by_cases hlast : c.target ≤ c.collected + 1
  · right
    use Nat.le_antisymm hlt hlast
    rw [if_pos hlast]
    obtain hf | ⟨e, he, hf⟩ := finish_cases (c.sampled x)
    · left
      rw [hf]
      exact ⟨rfl, rfl⟩
    · right
      rw [hf]
      exact ⟨rfl, he⟩
  · left
    rw [if_neg hlast]
    exact ⟨Nat.lt_of_not_le hlast, hs, rfl⟩

/-! ### Every run -/

/-- Every operation leads from the last session to the next one. -/
theorem Follows.perform (h : c.Follows last) (op : Operation α) :
  (c.perform op).Follows (c.nextSession last op)
  := by
  cases op with
  | start mode samples =>
      rw [perform_start, nextSession]
      split
      · exact h
      · exact .running rfl rfl rfl rfl (mode.target_pos samples)
  | feed x => exact h.feed x
  | load d =>
      rw [Calibration.perform, load_eq]
      exact h.withData _
  | setForward v => exact h.withData _

/-- Every operation keeps the counters within their bounds. -/
theorem Counted.perform (h : c.Counted) (hf : c.Follows last) (op : Operation α) :
  (c.perform op).Counted
  := by
  cases op with
  | start mode samples =>
      rw [perform_start]
      split
      · exact h
      · exact ⟨mode.target_lt samples, Nat.zero_le _, Tally.counts_empty⟩
  | feed x => exact h.feed hf.collected_lt x
  | load d =>
      rw [Calibration.perform, load_eq]
      exact h.withData _
  | setForward v => exact h.withData _

/-- A calibration that can be reached from one that was never run, with its last session. -/
def IsReached (c : Calibration α β) (last : Option Session) : Prop :=
  ∃ run : List (Operation α),
    (unset : Calibration α β).after run = c ∧
      (unset : Calibration α β).sessionAfter none run = last

/-- Over every run the calibration follows its last session and counts within bounds. -/
theorem IsReached.invariant (h : c.IsReached last) :
  c.Follows last ∧ c.Counted
  := by
  obtain ⟨run, rfl, rfl⟩ := h
  induction run using List.reverseRecOn with
  | nil =>
      use .idle rfl
      have htarget : defaultRestTarget < UInt32.size := by decide
      exact ⟨htarget, Nat.zero_le _, Tally.counts_empty⟩
  | append_singleton run op ih =>
      rw [after_concat, sessionAfter_concat]
      exact ⟨ih.1.perform op, ih.2.perform ih.1 op⟩

/-- Whatever has been done to a calibration: it collects as long as its last session lacks
samples, with as many collected as have been fed since its start, and has ended from the
last one of them on; its counters are words of 32 bits.  Only the second stage is refused,
for want of gravity, and that changes nothing, nor does a sample that is fed while nothing
is collected.  A sample that is collected changes the data only if the session is done with
it, and only those that the session is about. -/
theorem course_of_calibration (h : c.IsReached last) :
  c.Follows last ∧ c.Counted ∧
    (∀ mode (samples : UInt32),
      (∃ reason, c.start mode samples.toNat = .error reason) ↔
        mode = .forward ∧
          (¬ c.data.valid ∨ (c.data.gravity.lengthSq : β) < Vector3.smallestLengthSq)) ∧
    (∀ mode (samples : UInt32) reason, c.start mode samples.toNat = .error reason →
      c.perform (.start mode samples) = c) ∧
    (∀ x, c.status ≠ .collecting → c.perform (.feed x) = c) ∧
    ∀ x, c.status = .collecting →
      c.collected + 1 < c.target ∧
          (c.feed x).status = .collecting ∧ (c.feed x).data = c.data ∨
        c.collected + 1 = c.target ∧
          ((c.feed x).status = .failed ∧ (c.feed x).data = c.data ∨
            (c.feed x).status = .done ∧
              (c.feed x).data = c.mode.found c.data (c.feed x).data)
  := by
  obtain ⟨hf, hc⟩ := h.invariant
  refine ⟨hf, hc, ?_, ?_, ?_, ?_⟩
  · intro mode samples
    rw [start_eq]
    split
    · rename_i hr
      exact iff_of_true ⟨_, rfl⟩ hr
    · rename_i hr
      apply iff_of_false _ hr
      rintro ⟨_, ⟨⟩⟩
  · intro mode samples reason he
    rw [perform, he]
    rfl
  · intro x hs
    exact feed_of_ne hs x
  · intro x hs
    exact feed_cases hs (hf.collected_lt hs) x

/-- A sample of a car at rest. -/
def restingSample : Sample Float32 :=
  ⟨⟨0.0, 0.0, 1.0⟩, ⟨0.5, 0.0, 0.0⟩⟩

/-- A second stage that is refused, and a first stage of two samples of which one has been
fed. -/
def halfStage : Calibration Float32 Float :=
  unset.after [.start .forward 0, .start .gyro 2, .setForward .down, .feed restingSample]

/-- Such a calibration collects, and the next sample completes it. -/
theorem course_of_halfStage :
  halfStage.IsReached (some ⟨.gyro, 2, 1⟩) ∧ halfStage.collected = 1 ∧
    (halfStage.feed restingSample).data
      = { halfStage.data with rateBias := ⟨0.5, 0.0, 0.0⟩, valid := true }
  := by
  have h : halfStage.IsReached (some ⟨.gyro, 2, 1⟩) := ⟨_, rfl, by decide +kernel⟩
  obtain ⟨-, -, -, -, -, hfeed⟩ := course_of_calibration h
  refine ⟨h, by decide +kernel, ?_⟩
  obtain ⟨hlt, -⟩ | ⟨-, ⟨hs, -⟩ | ⟨-, hd⟩⟩ := hfeed restingSample (by decide +kernel)
  · cases (show ¬ halfStage.collected + 1 < halfStage.target by decide +kernel) hlt
  · cases (show (halfStage.feed restingSample).status ≠ .failed by decide +kernel) hs
  · have hrate : (halfStage.feed restingSample).data.rateBias = ⟨0.5, 0.0, 0.0⟩ := by
      decide +kernel
    rw [hd, ← hrate]
    rfl

end ModelCar.Calibration
