import ModelCar.Proofs.Control.Setup

/-!
# Which tunings are accepted

Only serving a request stores a tuning or gives an answer, and a tuning that is stored is
in range and may be used, whatever was asked for.  A change that is answered as invalid
has changed nothing.  One that is answered as not stored is in use, and the store is what
it was.
-/

namespace ModelCar

/-! ### Effects of requests -/

namespace Effect

/-- An effect that only a request has: storing a tuning, or an answer. -/
def OnRequest : Effect → Prop
  | .storeTuning _ _ => True
  | .answer _ _ => True
  | _ => False

end Effect

/-- Effects that need no request. -/
def Unasked (effects : List Effect) : Prop :=
  ∀ e ∈ effects, ¬ e.OnRequest

theorem unasked_nil :
  Unasked []
  := by
  intro e he
  cases he

theorem Unasked.cons {e : Effect} {effects : List Effect} (he : ¬ e.OnRequest)
    (h : Unasked effects) :
  Unasked (e :: effects)
  := List.forall_mem_cons.mpr ⟨he, h⟩

theorem Unasked.append {effects more : List Effect} (h : Unasked effects)
    (hm : Unasked more) :
  Unasked (effects ++ more)
  := List.forall_mem_append.mpr ⟨h, hm⟩

theorem unasked_note (n : Notice) :
  Unasked [.note n]
  := unasked_nil.cons id

/-- All that an effect and a notice add is the effect. -/
theorem Unasked.eq_of_mem {effects : List Effect} (h : Unasked effects) {e x : Effect}
    {n : Notice} (he : e ∈ effects ++ [x, .note n]) (hr : e.OnRequest) :
  e = x
  := by
  obtain he | he := List.mem_append.mp he
  · cases h e he hr
  · obtain rfl | he := List.mem_cons.mp he
    · rfl
    · cases unasked_note n e he hr

/-- All that an answer adds is the answer. -/
theorem Unasked.eq_answer {effects : List Effect} (h : Unasked effects) {e : Effect}
    {ticket : Nat} {a : Answer} (he : e ∈ effects ++ [.answer ticket a]) (hr : e.OnRequest) :
  e = .answer ticket a
  := by
  obtain he | he := List.mem_append.mp he
  · cases h e he hr
  · exact List.mem_singleton.mp he

/-- What stores no tuning, or tries to in vain, leaves the stored one as it is. -/
theorem keepAllTunings_of_not {effects : List Effect}
    (h : ∀ t, .storeTuning t none ∉ effects) (kept : Option (Tuning Float32)) :
  keepAllTunings kept effects = kept
  := by
  induction effects generalizing kept with
  | nil => rfl
  | cons e effects ih =>
      have he : e.keepTuning kept = kept := by
        cases e with
        | storeTuning t fault =>
            cases fault with
            | none => cases h t List.mem_cons_self
            | some f => rfl
        | _ => rfl
      rw [keepAllTunings, List.foldl_cons, he]
      apply ih
      intro t ht
      apply h t (List.mem_cons_of_mem _ ht)

namespace Control

variable {c : Control} {e : Effect}

/-! ### One request -/

theorem unasked_use (c : Control) (t : Tuning Float32) :
  Unasked (c.use t).2
  := by
  simp only [use]
  split
  · exact unasked_nil
  · exact unasked_note _

/-- A change of the tuning stores nothing but the tuning in range. -/
theorem Retuned.eq_storeTuning {t : Tuning Float32} {keep : Bool} {fault : Option Fault}
    {result : Except Tuning.Failure (Tuning Float32)} {c' : Control}
    {effects : List Effect} (h : Retuned c t keep fault result c' effects)
    (he : e ∈ effects) (hr : e.OnRequest) :
  t.clamped.IsClean ∧ e = .storeTuning t.clamped fault
  := by
  cases h with
  | refused => cases unasked_note _ e he hr
  | used => cases unasked_use c _ e he hr
  | stored ht => exact ⟨ht, (unasked_use c _).eq_of_mem he hr⟩
  | notStored ht => exact ⟨ht, (unasked_use c _).eq_of_mem he hr⟩

/-- What a change of the tuning leaves behind that has failed: nothing at all if the
tuning is invalid, and otherwise the tuning in range, but not in the store. -/
def Fails (c : Control) (t : Tuning Float32) (c' : Control) (effects : List Effect) :
    Except Tuning.Failure (Tuning Float32) → Prop
  | .ok _ => True
  | .error .invalid => c' = c ∧ ∀ kept, keepAllTunings kept effects = kept
  | .error (.notStored _) =>
    c'.tuning = t.clamped ∧ ∀ kept, keepAllTunings kept effects = kept

/-- A change of the tuning that fails does so in this way, whatever else is done that
stores no tuning. -/
theorem Retuned.fails {t : Tuning Float32} {keep : Bool} {fault : Option Fault}
    {result : Except Tuning.Failure (Tuning Float32)} {c' : Control}
    {effects more : List Effect} (h : Retuned c t keep fault result c' effects)
    (hm : ∀ u, .storeTuning u none ∉ more) :
  c.Fails t c' (effects ++ more) result
  := by
  have hkept (hn : ∀ u, .storeTuning u none ∉ effects) (kept : Option (Tuning Float32)) :
      keepAllTunings kept (effects ++ more) = kept := by
    apply keepAllTunings_of_not
    intro u hu
    obtain hu | hu := List.mem_append.mp hu
    · exact hn u hu
    · exact hm u hu
  cases h with
  | refused =>
      use rfl
      apply hkept
      intro u hu
      cases unasked_note _ _ hu trivial
  | used => trivial
  | stored => trivial
  | notStored ht =>
      use rfl
      apply hkept
      intro u hu
      cases ((unasked_use c _).eq_of_mem hu trivial)

theorem unasked_calibrate (c : Control) (full : Bool) :
  Unasked (c.calibrate full).2
  := by
  simp only [calibrate]
  split
  · split
    · exact unasked_note _
    · exact unasked_nil
  · exact unasked_note _

theorem unasked_calibrateForward (c : Control) :
  Unasked c.calibrateForward.2.2
  := by
  unfold calibrateForward
  split
  · exact unasked_nil
  · dsimp only
    split
    · exact unasked_note _
    · exact unasked_note _

theorem unasked_setForward (c : Control) (v : Vector3 Float32) (fault : Option Fault) :
  Unasked (c.setForward v fault).2.2
  := (unasked_note _).cons id

/-- Only a request to change the tuning has effects that have to do with a change of the
tuning. -/
theorem handle_onRequest {d : Delivery} (he : e ∈ (c.handle d).2) (hr : e.OnRequest) :
  (∃ t keep, d.request = .retune t keep ∧
    (e ∈ (c.retune t keep d.fault).2.2 ∨
      e = .answer d.ticket (.retune (c.retune t keep d.fault).1))) ∨
    ∃ a, e = .answer d.ticket a ∧ ∀ result, a ≠ .retune result
  := by
  obtain ⟨⟨ticket, request⟩, fault⟩ := d
  cases request with
  | calibrate full => cases unasked_calibrate c full e he hr
  | calibrateForward =>
      right
      use .calibrateForward c.calibrateForward.1, (unasked_calibrateForward c).eq_answer he hr
      rintro _ ⟨⟩
  | setForward v =>
      right
      use .setForward (c.setForward v fault).1, (unasked_setForward c v fault).eq_answer he hr
      rintro _ ⟨⟩
  | retune t keep =>
      left
      use t, keep, rfl
      exact (List.mem_append.mp he).imp_right List.mem_singleton.mp
  | query =>
      right
      use .status c.status, unasked_nil.eq_answer he hr
      rintro _ ⟨⟩

/-- A request stores nothing but a tuning in range that may be used. -/
theorem handle_stored {d : Delivery} {u : Tuning Float32} {fault : Option Fault}
    (h : .storeTuning u fault ∈ (c.handle d).2) :
  u.IsClean
  := by
  obtain ⟨t, keep, -, h | h⟩ | ⟨a, h, -⟩ := handle_onRequest h trivial
  · obtain ⟨ht, h⟩ := (retune_retuned c t keep d.fault).eq_storeTuning h trivial
    cases h
    exact ht
  · cases h
  · cases h

/-- A request that is answered with the result of a change of the tuning asked for one, and
if it failed, it failed in one of the two ways. -/
theorem handle_fails {d : Delivery} {result : Except Tuning.Failure (Tuning Float32)}
    (h : .answer d.ticket (.retune result) ∈ (c.handle d).2) :
  ∃ t keep, d.request = .retune t keep ∧ c.Fails t (c.handle d).1 (c.handle d).2 result
  := by
  obtain ⟨t, keep, ht, h | h⟩ | ⟨a, h, ha⟩ := handle_onRequest h trivial
  · cases ((retune_retuned c t keep d.fault).eq_storeTuning h trivial).2
  · cases h
    use t, keep, ht
    obtain ⟨⟨ticket, request⟩, fault⟩ := d
    obtain rfl : request = .retune t keep := ht
    apply (retune_retuned c t keep fault).fails
    intro u hu
    cases List.mem_singleton.mp hu
  · cases h
    cases ha result rfl

theorem serve_stored {ds : List Delivery} {u : Tuning Float32} {fault : Option Fault}
    (h : .storeTuning u fault ∈ (c.serve ds).2) :
  u.IsClean
  := by
  induction ds generalizing c with
  | nil => cases h
  | cons d ds ih =>
      rw [serve_cons] at h
      obtain h | h := List.mem_append.mp h
      · exact handle_stored h
      · exact ih h

/-! ### Turns and starts -/

theorem unasked_sense (c : Control) (s : Surroundings) :
  Unasked (c.sense s).2
  := by
  simp only [sense]
  split
  · exact unasked_nil.cons id
  · exact unasked_nil

theorem unasked_noteCalibration (c : Control) (fault : Option Fault) :
  Unasked (c.noteCalibration fault).2
  := by
  simp only [noteCalibration]
  split
  · exact unasked_nil
  · split
    · exact ((unasked_note _).cons id).cons id
    · exact unasked_note _
    · exact unasked_nil

theorem unasked_guard (c : Control) (now : Millis) (target : Controls) :
  Unasked (c.guard now target).2.2
  := by
  intro e he
  obtain ⟨n, rfl⟩ | ⟨active, rfl⟩ | rfl := c.mem_guard he
  · exact id
  · exact id
  · exact id

theorem unasked_drive (c : Control) (now : Millis) (target : Controls) :
  Unasked (c.drive now target).2
  := by
  unfold drive
  split
  · exact unasked_nil
  · exact unasked_nil.cons id

theorem unasked_report (c : Control) (now : Millis) (clients : Nat) :
  Unasked (c.report now clients).2
  := by
  simp only [report, Reporter.update]
  split
  · exact unasked_nil
  · apply Unasked.cons id
    intro e he
    obtain ⟨snapshot, -, rfl⟩ := Option.map_eq_some_iff.mp (Option.mem_toList.mp he)
    exact id

theorem unasked_diagnose (c : Control) (now : Millis) (busy : UInt64) :
  Unasked (c.diagnose now busy).2
  := by
  simp only [diagnose]
  split
  · exact unasked_nil
  · apply Unasked.cons id
    split
    · exact unasked_note _
    · exact unasked_nil

/-- In a turn only the requests store a tuning or give answers. -/
theorem mem_turn_of_onRequest {s : Surroundings} (he : e ∈ (c.turn s).2)
    (hr : e.OnRequest) :
  e ∈ ((c.sensed s).serve s.requests).2
  := by
  have hs : e ∉ (c.sense s).2 := fun h => unasked_sense c s e h hr
  have hn : e ∉ ((c.served s).noteCalibration s.fault).2 :=
    fun h => unasked_noteCalibration _ _ e h hr
  have hg : e ∉ ((c.stabilized s).guard s.now (c.target s)).2.2 :=
    fun h => unasked_guard _ _ _ e h hr
  have hd : e ∉ ((c.guarded s).drive s.now (c.goal s)).2 :=
    fun h => unasked_drive _ _ _ e h hr
  have hp : e ∉ ((c.driven s).report s.now s.clients).2 :=
    fun h => unasked_report _ _ _ e h hr
  have hi : e ∉ ((c.reported s).diagnose s.now (busyTime s)).2 :=
    fun h => unasked_diagnose _ _ _ e h hr
  rw [turn_eq] at he
  simpa only [List.mem_append, hs, hn, hg, hd, hp, hi, false_or, or_false] using he

theorem unasked_startRadio (c : Control) (fault : Option Fault) :
  Unasked (c.startRadio fault).2
  := by
  cases fault with
  | none => exact unasked_nil
  | some f => exact unasked_note _

theorem unasked_startInertial (c : Control) (s : Startup) :
  Unasked (c.startInertial s).2
  := by
  unfold startInertial
  split
  · cases s.calibration with
    | none => exact unasked_note _
    | some data =>
        simp only [loadCalibration]
        split
        · exact unasked_note _
        · exact unasked_note _
  · exact unasked_note _

theorem unasked_startCalibration (c : Control) :
  Unasked c.startCalibration.2
  := by
  simp only [startCalibration]
  split
  · exact unasked_note _
  · exact unasked_nil

theorem unasked_launch (c : Control) (s : Startup) :
  Unasked (c.launch s).2
  := by
  rw [launch_eq]
  apply Unasked.append
  · apply Unasked.append _ (unasked_startCalibration _)
    apply Unasked.append
    · exact (unasked_startRadio c _).append (unasked_startInertial _ s)
    · exact (unasked_use _ _).cons id
  · exact (unasked_note _).cons id

theorem unasked_start (c : Control) (s : Startup) :
  Unasked (c.start s).2.2
  := by
  unfold start
  split
  · exact unasked_nil
  · split
    · exact unasked_note _
    · exact unasked_note _
    · exact unasked_launch c s

end Control

/-! ### A run -/

namespace Car

variable {car : Car}

/-- Every operation stores nothing but tunings in range that may be used. -/
theorem isClean_of_stored {op : Operation} {u : Tuning Float32} {fault : Option Fault}
    (h : .storeTuning u fault ∈ (car.perform op).2) :
  u.IsClean
  := by
  cases op with
  | renew t => cases h
  | start s => cases Control.unasked_start _ _ _ h trivial
  | turn s => exact Control.serve_stored (Control.mem_turn_of_onRequest h trivial)
  | calibrateForward => cases Control.unasked_calibrateForward _ _ h trivial
  | setForward v f => cases Control.unasked_setForward _ _ _ _ h trivial
  | retune t keep f =>
      obtain ⟨ht, hu⟩ := (Control.retune_retuned _ t keep f).eq_storeTuning h trivial
      cases hu
      exact ht

/-- In every state that can be reached, whatever was stored and whatever was asked for, the
tuning in use is in range and may be used, and so is every tuning that an operation
stores; and a change of the tuning, asked for in a request or not, that is answered with
a failure has changed nothing if the failure is that the tuning is invalid, and otherwise
has left the store as it was, with the tuning in range in use. -/
theorem only_clean_tunings (h : car.IsReachable) :
  car.control.tuning.IsClean ∧
  (∀ op u fault, .storeTuning u fault ∈ (car.perform op).2 → u.IsClean) ∧
  (∀ (c : Control) t keep fault,
    c.Fails t (c.retune t keep fault).2.1 (c.retune t keep fault).2.2
      (c.retune t keep fault).1) ∧
  ∀ (c : Control) (d : Delivery) result,
    .answer d.ticket (.retune result) ∈ (c.handle d).2 →
      ∃ t keep, d.request = .retune t keep ∧ c.Fails t (c.handle d).1 (c.handle d).2 result
  := by
  refine ⟨h.settled.isClean, ?_, ?_, ?_⟩
  · intro op u fault hu
    exact isClean_of_stored hu
  · intro c t keep fault
    rw [← List.append_nil (c.retune t keep fault).2.2]
    apply (Control.retune_retuned c t keep fault).fails
    intro u
    exact List.not_mem_nil
  · intro c d result hd
    exact Control.handle_fails hd

/-- A start with a stored tuning whose cutoff is not a number and whose mode does not
exist. -/
def dirtyStart : Operation :=
  .start { Startup.plain with
    tuning := some { Tuning.standard with cutoff := 0.0 / 0.0, mode := 7 } }

theorem dirtyStart_cleaned :
  ((⟨.ofSettings {}, none⟩ : Car).after [dirtyStart]).control.tuning = .standard ∧
    ((⟨.ofSettings {}, none⟩ : Car).after [dirtyStart]).control.tuning.IsClean
  := by
  constructor
  · decide +kernel
  · exact (only_clean_tunings ⟨{}, none, _, rfl⟩).1

end Car

end ModelCar
