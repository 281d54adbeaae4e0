import ModelCar.Proofs.Drive.Source

/-!
# Staleness of wireless commands

A wireless command counts for a limited time.  The last command that was taken is kept
for ever with the reading of the clock at that time, and its age is told by the clock.
So a command that has become stale counts again whenever the clock has come round to
readings at which it was young: `2 ^ 32` milliseconds after it was taken, and again and
again.
-/

namespace ModelCar

namespace Wireless

/-- Some command was taken in a run, less than a timeout before a given time. -/
def Fresh (run : List Reading) (now : Nat) (timeout : Millis) : Prop :=
  ∃ p ∈ taken run, now - p.2 < timeout.toNat

instance (run : List Reading) (now : Nat) (timeout : Millis) :
    Decidable (Fresh run now timeout) :=
  inferInstanceAs (Decidable (∃ p ∈ taken run, now - p.2 < timeout.toNat))

variable {w : Wireless} {run : List Reading} {x : Reading}

/-- No command was taken after the last one. -/
theorem taken_le_getLast (h : InOrder Reading.time run) {p q : Controls × Nat}
    (hp : (taken run).getLast? = some p) (hq : q ∈ taken run) :
  q.2 ≤ p.2
  := by
  have ht : (taken run).Pairwise fun p q => p.2 ≤ q.2 := by
    apply List.Pairwise.filterMap _ _ h
    intro x y hxy p hp q hq
    obtain ⟨_, -, rfl⟩ := Option.map_eq_some_iff.mp hp
    obtain ⟨_, -, rfl⟩ := Option.map_eq_some_iff.mp hq
    exact hxy
  obtain ⟨before, hb⟩ := List.getLast?_eq_some_iff.mp hp
  rw [hb] at hq ht
  obtain hq | hq := List.mem_append.mp hq
  · apply (List.pairwise_append.mp ht).2.2 q hq
    apply List.mem_singleton_self
  · obtain rfl := List.mem_singleton.mp hq
    apply Nat.le_refl

/-- A command is fresh if the last one is. -/
theorem fresh_iff (h : InOrder Reading.time run) (now : Nat) (timeout : Millis) :
  Fresh run now timeout ↔
    ∃ p, (taken run).getLast? = some p ∧ now - p.2 < timeout.toNat
  := by
  constructor
  · intro ⟨q, hq, hlt⟩
    have hsome : (taken run).getLast?.isSome :=
      List.getLast?_isSome.mpr (List.ne_nil_of_mem hq)
    obtain ⟨p, hp⟩ := Option.isSome_iff_exists.mp hsome
    use p, hp
    have := taken_le_getLast h hp hq
    omega
  · intro ⟨p, hp, hlt⟩
    use p, List.mem_of_getLast? hp

theorem taken_eq_nil (h : ∀ x ∈ run, x.command = none) :
  taken run = []
  := by
  apply List.filterMap_eq_nil_iff.mpr
  intro x hx
  rw [h x hx]
  rfl

/-- What is active is fresh, unless the clock has come round since the last command was
taken and reads less than the timeout after it. -/
theorem fresh_of_isActive_iff (hw : w.last = none) (h : InOrder Reading.time (run ++ [x])) :
  ((w.after (run ++ [x])).isActive → Fresh (run ++ [x]) x.time w.timeout) ↔
    ∀ p, (taken (run ++ [x])).getLast? = some p →
      x.time - p.2 < 2 ^ 32 ∨ w.timeout.toNat ≤ (x.time - p.2) % 2 ^ 32
  := by
  rw [isActive_after_concat_iff hw h.le_last, fresh_iff h]
  have ht : w.timeout.toNat < 2 ^ 32 := w.timeout.toNat_lt
  constructor
  · intro hf p hp
    by_cases hlt : (x.time - p.2) % 2 ^ 32 < w.timeout.toNat
    · obtain ⟨q, hq, hlt⟩ := hf ⟨p, hp, hlt⟩
      obtain rfl : p = q := by rwa [hp, Option.some_inj] at hq
      left
      omega
    · right
      omega
  · intro hl ⟨p, hp, hlt⟩
    use p, hp
    obtain hs | hs := hl p hp
    · rwa [Nat.mod_eq_of_lt hs] at hlt
    · omega

/-- What has become stale is active again, without a new command, exactly when the clock
has come round and reads less than the timeout after the last command. -/
theorem revives_iff (hw : w.last = none) (h : InOrder Reading.time (run ++ [x]))
    (hstale : ¬ (w.after (run ++ [x])).isActive) {later : List Reading} {y : Reading}
    (hy : InOrder Reading.time (run ++ [x] ++ later ++ [y]))
    (hnone : ∀ z ∈ later ++ [y], z.command = none) :
  (w.after (run ++ [x] ++ later ++ [y])).isActive ↔
    ∃ p, (taken (run ++ [x])).getLast? = some p ∧ 2 ^ 32 ≤ y.time - p.2 ∧
      (y.time - p.2) % 2 ^ 32 < w.timeout.toNat
  := by
  have htaken : taken (run ++ [x] ++ later ++ [y]) = taken (run ++ [x]) := by
    rw [List.append_assoc, taken_append, taken_eq_nil hnone, List.append_nil]
  have hle : x.time ≤ y.time := by
    apply hy.le_last
    simp
  rw [isActive_after_concat_iff hw h.le_last] at hstale
  rw [isActive_after_concat_iff hw hy.le_last, htaken]
  constructor
  · intro ⟨p, hp, hlt⟩
    use p, hp
    constructor
    · by_contra hs
      apply hstale
      use p, hp
      -- Without a full round the age at `x` is the smaller one of the two.
      rw [Nat.mod_eq_of_lt (by omega)] at hlt ⊢
      omega
    · exact hlt
  · intro ⟨p, hp, _, hlt⟩
    use p, hp, hlt

/-! ### The staleness of the last command -/

/-- The wireless clients are active, and have a command, only while a command is fresh,
as long as the clock does not come round to within the timeout of the last one; and
what has become stale comes to life again exactly when it does. -/
theorem stays_stale_iff (hw : w.last = none) (h : InOrder Reading.time (run ++ [x])) :
  (((w.after (run ++ [x])).isActive ∨ (w.after (run ++ [x])).command.isSome →
      Fresh (run ++ [x]) x.time w.timeout) ↔
    ∀ p, (taken (run ++ [x])).getLast? = some p →
      x.time - p.2 < 2 ^ 32 ∨ w.timeout.toNat ≤ (x.time - p.2) % 2 ^ 32) ∧
  (¬ (w.after (run ++ [x])).isActive →
    ∀ later y, InOrder Reading.time (run ++ [x] ++ later ++ [y]) →
      (∀ z ∈ later ++ [y], z.command = none) →
      ((w.after (run ++ [x] ++ later ++ [y])).isActive ↔
        ∃ p, (taken (run ++ [x])).getLast? = some p ∧ 2 ^ 32 ≤ y.time - p.2 ∧
          (y.time - p.2) % 2 ^ 32 < w.timeout.toNat))
  := by
  constructor
  · rw [isSome_command, or_self]
    apply fresh_of_isActive_iff hw h
  · intro hstale later y hy hnone
    apply revives_iff hw h hstale hy hnone

/-- A command of one second ago is stale after a timeout of half a second, and counts
again a full round of the clock after it was taken. -/
theorem stays_stale_of_one_second :
  ∃ (w : Wireless) (run : List Reading) (x y : Reading),
    w.last = none ∧ InOrder Reading.time (run ++ [x]) ∧
      ¬ (w.after (run ++ [x])).isActive ∧
      (w.after (run ++ [x] ++ [] ++ [y])).isActive
  := by
  use { timeout := 500 }, [⟨1000, some (.clamped 0.5 0.2)⟩], ⟨2000, none⟩,
    ⟨1000 + 2 ^ 32, none⟩
  have hin : InOrder Reading.time [⟨1000, some (.clamped 0.5 0.2)⟩, ⟨2000, none⟩] := by
    decide
  use rfl, hin, by decide
  apply ((stays_stale_iff rfl hin).2 (by decide) _ _ (by decide) (by decide)).mpr
  use (.clamped 0.5 0.2, 1000)
  decide

/-- A command that was taken at `1000` and was stale at `1600` steers the car again when
the clock has come round. -/
theorem stale_command_revives :
  ∃ (w : Wireless) (run : List Reading) (x y : Reading),
    w.last = none ∧ InOrder Reading.time (run ++ [x, y]) ∧ y.command = none ∧
      ¬ (w.after (run ++ [x])).isActive ∧
      (w.after (run ++ [x, y])).isActive ∧
      (w.after (run ++ [x, y])).command.isSome ∧
      ¬ Fresh (run ++ [x, y]) y.time w.timeout
  := by
  use { timeout := 500 }, [⟨1000, some (.clamped 0.5 0.2)⟩], ⟨1600, none⟩,
    ⟨1000 + 2 ^ 32, none⟩
  decide

end Wireless

end ModelCar
