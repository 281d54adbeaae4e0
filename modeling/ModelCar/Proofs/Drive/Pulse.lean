import Mathlib.Data.List.Basic
import ModelCar.Drive.Pulse
import ModelCar.Proofs.Clock

/-!
# Measured pulses

A signal is high from a rise to the next fall.  The channel measures its high pulses on a
counter of microseconds modulo `2 ^ 32` and tells their age on a clock of milliseconds modulo
`2 ^ 32`.  Wherever the counters come round, what it gives is the true width of the last pulse
of a sensible width, as long as that pulse is young enough: `pulse_read_iff`.
-/

namespace ModelCar.PulseInput

/-! ### Signals -/

/-- The signal rises or falls at a time in microseconds. -/
structure Edge where
  rising : Bool
  time : UInt64
deriving DecidableEq

/-- The channel after some edges. -/
def after (p : PulseInput) (edges : List Edge) : PulseInput :=
  edges.foldl (fun p e => p.edge e.rising e.time) p

/-- Rises and falls take turns, and a rise comes first. -/
def Alternating : List Edge → Prop
  | [] => True
  | [up] => up.rising
  | up :: down :: rest => up.rising ∧ ¬ down.rising ∧ Alternating rest

instance decidableAlternating : (edges : List Edge) → Decidable (Alternating edges)
  | [] => isTrue trivial
  | [up] => inferInstanceAs (Decidable (up.rising = true))
  | _ :: _ :: rest => @instDecidableAnd _ _ _ (@instDecidableAnd _ _ _ (decidableAlternating rest))

/-- The signal is high between two times in microseconds. -/
structure High where
  rise : UInt64
  fall : UInt64
deriving DecidableEq

namespace High

/-- The true width in microseconds. -/
def width (h : High) : Nat :=
  h.fall.toNat - h.rise.toNat

/-- The width makes sense for a pulse of a receiver. -/
def isSensible (h : High) : Bool :=
  800 ≤ h.width ∧ h.width ≤ 2200

/-- What is kept of a pulse. -/
def measured (h : High) : Pulse :=
  ⟨h.fall.toUInt32 - h.rise.toUInt32, (h.fall / 1000).toUInt32⟩

/-- The pulse does not end before it begins, nor does the counter come round to its
beginning. -/
structure Countable (h : High) : Prop where
  rise_le_fall : h.rise.toNat ≤ h.fall.toNat
  width_lt : h.width < 2 ^ 32

end High

/-- The high pulses of a signal that have ended. -/
def highs : List Edge → List High
  | up :: down :: rest => ⟨up.time, down.time⟩ :: highs rest
  | _ => []

/-- The last high pulse of a sensible width. -/
def latest (edges : List Edge) : Option High :=
  ((highs edges).filter High.isSensible).getLast?

/-- The signal of some high pulses. -/
def signal (hs : List High) : List Edge :=
  hs.flatMap fun h => [⟨true, h.rise⟩, ⟨false, h.fall⟩]

theorem alternating_signal (hs : List High) :
  Alternating (signal hs)
  := by
  induction hs with
  | nil => trivial
  | cons h hs ih => exact ⟨rfl, by rintro ⟨⟩, ih⟩

theorem highs_signal (hs : List High) :
  highs (signal hs) = hs
  := by
  induction hs with
  | nil => rfl
  | cons h hs ih =>
      apply congrArg (List.cons h)
      apply ih

/-- The times of a pulse are those of edges in their order. -/
theorem times_of_mem_highs :
    ∀ {edges : List Edge}, InOrder (fun e => e.time.toNat) edges → ∀ h ∈ highs edges,
      h.rise.toNat ≤ h.fall.toNat ∧ ∃ e ∈ edges, e.time = h.fall
  | [], _, _, hh => by cases hh
  | [_], _, _, hh => by cases hh
  | up :: down :: rest, horder, h, hh => by
      obtain ⟨hup, hrest⟩ := List.pairwise_cons.mp horder
      rcases List.mem_cons.mp hh with rfl | hh
      · use hup down List.mem_cons_self, down
        simp
      · obtain ⟨hle, e, he, heq⟩ := times_of_mem_highs (List.pairwise_cons.mp hrest).2 h hh
        use hle, e
        simp [he, heq]

/-! ### Measuring -/

theorem High.toNat_width {h : High} (hc : h.Countable) :
  (h.fall.toUInt32 - h.rise.toUInt32).toNat = h.width
  := by
  obtain ⟨hle, hlt⟩ := hc
  rw [width] at *
  rw [UInt32.toNat_sub, UInt64.toNat_toUInt32, UInt64.toNat_toUInt32]
  omega

theorem High.ended_measured (h : High) :
  h.measured.ended = .ofTime (h.fall.toNat / 1000)
  := by
  apply UInt32.toNat_inj.mp
  rw [measured, UInt64.toNat_toUInt32, UInt64.toNat_div, Millis.ofTime, UInt32.toNat_ofNat']
  rfl

/-- A pulse is kept exactly if its true width makes sense. -/
theorem last_of_high (p : PulseInput) {h : High} (hc : h.Countable) :
  ((p.edge true h.rise).edge false h.fall).last
    = if h.isSensible then some h.measured else p.last
  := by
  have hwidth := High.toNat_width hc
  have hsensible : h.isSensible ↔
      shortest ≤ h.fall.toUInt32 - h.rise.toUInt32 ∧
        h.fall.toUInt32 - h.rise.toUInt32 ≤ longest := by
    rw [UInt32.le_iff_toNat_le, UInt32.le_iff_toNat_le, hwidth, High.isSensible,
      decide_eq_true_iff]
    rfl
  simp only [edge, if_true, Bool.false_eq_true, if_false, ← hsensible]
  split
  · rfl
  · rfl

/-- The channel keeps the last pulse of a sensible width. -/
theorem last_after :
    ∀ {edges : List Edge} (p : PulseInput), Alternating edges →
      (∀ h ∈ highs edges, h.Countable) →
      (p.after edges).last = ((latest edges).map High.measured).or p.last
  | [], _, _, _ => rfl
  | [up], p, hup, _ => by
      show (p.edge up.rising up.time).last = p.last
      rw [show up.rising = true from hup]
      rfl
  | up :: down :: rest, p, ⟨hup, hdown, hrest⟩, hc => by
      obtain ⟨hhigh, hc⟩ := List.forall_mem_cons.mp hc
      have hfirst := last_of_high p hhigh
      have hafter : p.after (up :: down :: rest)
          = ((p.edge true up.time).edge false down.time).after rest := by
        rw [Bool.not_eq_true] at hdown
        rw [← hup, ← hdown]
        rfl
      rw [hafter, last_after _ hrest hc, hfirst, latest, latest, highs, List.filter_cons]
      split
      · rw [List.getLast?_cons]
        cases ((highs rest).filter High.isSensible).getLast? with
        | none => rfl
        | some h => rfl
      · rfl

/-! ### Reading -/

/-- What is read depends on the last pulse alone. -/
theorem widthAt_congr {p q : PulseInput} (h : p.last = q.last) (now : Millis) :
  p.widthAt now = q.widthAt now
  := by rw [widthAt, widthAt, h]

/-- A sensible width has room in a word of sixteen bits. -/
theorem High.toNat_measured {h : High} (hc : h.Countable) (hs : h.isSensible) :
  h.measured.width.toUInt16.toNat = h.width
  := by
  obtain ⟨-, hle⟩ := of_decide_eq_true hs
  rw [UInt32.toNat_toUInt16, measured, High.toNat_width hc]
  omega

/-- The last pulse is read as long as its age is in the lifetime of pulses. -/
theorem widthAt_of_last {p : PulseInput} {h : High} {u : Nat} (hp : p.last = some h.measured)
    (hu : h.fall.toNat ≤ u) (hspan : u / 1000 - h.fall.toNat / 1000 < 2 ^ 32) :
  p.widthAt (.ofTime (u / 1000))
    = if u / 1000 - h.fall.toNat / 1000 ≤ 250 then some h.measured.width.toUInt16 else none
  := by
  have hage := Millis.toNat_ofTime_sub (Nat.div_le_div_right (c := 1000) hu)
  rw [Nat.mod_eq_of_lt hspan] at hage
  have hold : lifetime < .ofTime (u / 1000) - h.measured.ended ↔
      ¬ u / 1000 - h.fall.toNat / 1000 ≤ 250 := by
    rw [h.ended_measured, UInt32.lt_iff_toNat_lt, hage, Nat.not_le]
    rfl
  rw [widthAt, hp]
  simp only [hold, ite_not]

variable {p : PulseInput} {edges : List Edge} {u : Nat}

theorem mem_of_latest {h : High} (hh : latest edges = some h) :
  h ∈ highs edges ∧ h.isSensible
  := List.mem_filter.mp (List.mem_of_getLast? hh)

theorem latest_signal (edges : List Edge) :
  latest (signal ((highs edges).filter High.isSensible)) = latest edges
  := by
  rw [latest, highs_signal, List.filter_filter, latest]
  simp only [Bool.and_self]

/-- A channel that has not kept a pulse yet takes in a signal, and is asked at a time after
all its edges.  It gives a width exactly if a high pulse of a sensible width has ended, the
last such pulse has this true width, and at most 250 milliseconds have passed since its end;
otherwise it gives nothing.  Pulses of other widths make no difference. -/
theorem pulse_read_iff (hp : p.last = none) (halternating : Alternating edges)
    (horder : InOrder (fun e => e.time.toNat) edges) (hhigh : ∀ h ∈ highs edges, h.width < 2 ^ 32)
    (hu : ∀ e ∈ edges, e.time.toNat ≤ u)
    (hspan : ∀ h ∈ latest edges, u / 1000 - h.fall.toNat / 1000 < 2 ^ 32) :
  (∀ w, (p.after edges).widthAt (.ofTime (u / 1000)) = some w ↔
      ∃ h ∈ latest edges, w.toNat = h.width ∧ u / 1000 - h.fall.toNat / 1000 ≤ 250) ∧
    ((p.after edges).widthAt (.ofTime (u / 1000)) = none ↔
      ∀ h ∈ latest edges, 250 < u / 1000 - h.fall.toNat / 1000) ∧
    ∀ now, (p.after (signal ((highs edges).filter High.isSensible))).widthAt now
      = (p.after edges).widthAt now
  := by
  have hcountable : ∀ h ∈ highs edges, h.Countable := by
    intro h hh
    exact ⟨(times_of_mem_highs horder h hh).1, hhigh h hh⟩
  have hlast := last_after p halternating hcountable
  have hsensible := last_after p (alternating_signal ((highs edges).filter High.isSensible))
    (by
      rw [highs_signal]
      intro h hh
      apply hcountable h (List.mem_filter.mp hh).1)
  rw [latest_signal, ← hlast] at hsensible
  rw [hp, Option.or_none] at hlast
  rw [← and_assoc]
  use ?_, widthAt_congr hsensible
  cases hlatest : latest edges with
  | none =>
      rw [hlatest] at hlast
      have hread : (p.after edges).widthAt (.ofTime (u / 1000)) = none := by
        rw [widthAt, hlast]
        rfl
      simp [hread]
  | some h =>
      rw [hlatest] at hlast
      obtain ⟨hmem, hs⟩ := mem_of_latest hlatest
      obtain ⟨-, e, he, heq⟩ := times_of_mem_highs horder h hmem
      have hread := widthAt_of_last hlast (heq ▸ hu e he) (hspan h hlatest)
      have hwidth := High.toNat_measured (hcountable h hmem) hs
      rw [hread]
      simp only [Option.mem_def, Option.some.injEq, exists_eq_left', forall_eq', ← hwidth,
        UInt16.toNat_inj]
      split
      · rename_i hle
        simp only [hle, and_true, Option.some.injEq, reduceCtorEq, false_iff, Nat.not_lt]
        use fun w => eq_comm
      · rename_i hlt
        simp only [hlt, and_false, reduceCtorEq, true_iff, iff_self]
        use fun _ => trivial, Nat.not_le.mp hlt

/-- A pulse across the moment at which both counters come round, and a longer one that makes
no sense. -/
def roundTheCounters : List Edge :=
  [⟨true, 4294967295000⟩, ⟨false, 4294967296500⟩, ⟨true, 4294967300000⟩,
    ⟨false, 4294967303000⟩]

theorem pulse_read_roundTheCounters :
  (Alternating roundTheCounters ∧ InOrder (fun e => e.time.toNat) roundTheCounters) ∧
    (({} : PulseInput).after roundTheCounters).widthAt (.ofTime 4294967400) = some 1500
  := by
  have halternating : Alternating roundTheCounters := by decide
  have horder : InOrder (fun e => e.time.toNat) roundTheCounters := by decide
  refine ⟨⟨halternating, horder⟩, ?_⟩
  have hlatest : latest roundTheCounters = some ⟨4294967295000, 4294967296500⟩ := by decide
  have hspan : ∀ h ∈ latest roundTheCounters,
      4294967400000 / 1000 - h.fall.toNat / 1000 < 2 ^ 32 := by
    rw [hlatest]
    decide
  obtain ⟨hread, -⟩ := pulse_read_iff (p := {}) rfl halternating horder (by decide) (by decide)
    hspan
  apply (hread 1500).mpr
  exact ⟨_, hlatest, by decide⟩

end ModelCar.PulseInput
