import ModelCar.Proofs.Stabilization.Tuning
import ModelCar.Stabilization.Patch

/-!
# Changes of different fields

Two changes that name different fields can be made in either order, and none of them
undoes the other.  It makes no difference whether a tuning is brought in range before a
change as well, as long as it is afterwards.
-/

namespace ModelCar.Tuning

/-! ### One field -/

section
variable {β : Type}

theorem getD_getD (o : Option β) (x : β) :
  o.getD (o.getD x) = o.getD x
  := by cases o <;> rfl

/-- New values of different fields do not meet. -/
theorem getD_comm {o p : Option β} (h : o.isSome → p.isNone) (x : β) :
  o.getD (p.getD x) = p.getD (o.getD x)
  := by
  cases o with
  | none => rfl
  | some v =>
      cases p with
      | none => rfl
      | some w => cases h rfl

/-- The old value can be put back. -/
theorem getD_map_const (o : Option β) (x : β) :
  (o.map fun _ => x).getD (o.getD x) = x
  := by cases o <;> rfl

end

variable {lo hi fallback : Float32}

theorem within_getD (h : IsRange lo hi fallback) (o : Option Float32) (x : Float32) :
  within lo hi fallback (o.getD (within lo hi fallback x))
    = within lo hi fallback (o.getD x)
  := by
  cases o with
  | none => exact within_within h x
  | some v => rfl

theorem min_getD (o : Option Millis) (x b : Millis) :
  min (o.getD (min x b)) b = min (o.getD x) b
  := by
  cases o with
  | none => exact min_min x b
  | some v => rfl

/-! ### All fields -/

namespace Patch

variable {p q : Patch Float32} {t : Tuning Float32}

/-- Which fields a change names, the mode apart. -/
def named (p : Patch Float32) : List Bool :=
  [p.enabled.isSome, p.attitudeGain.isSome, p.cutoff.isSome, p.sampleRate.isSome,
    p.proportional.isSome, p.integral.isSome, p.derivative.isSome, p.maxIntegral.isSome,
    p.maxCorrection.isSome, p.fullYawRate.isSome, p.fade.isSome, p.pitchEnabled.isSome,
    p.pitchGain.isSome, p.maxPitchCorrection.isSome]

/-- No field is named by both changes. -/
def Disjoint (p q : Patch Float32) : Prop :=
  ∀ n ∈ p.named.zip q.named, ¬ (n.1 ∧ n.2)

instance (p q : Patch Float32) : Decidable (Disjoint p q) :=
  inferInstanceAs (Decidable (∀ n ∈ _, _))

/-- The change that puts the named fields back to what they were. -/
def undo (p : Patch Float32) (t : Tuning Float32) : Patch Float32 where
  enabled := p.enabled.map fun _ => t.enabled
  attitudeGain := p.attitudeGain.map fun _ => t.attitudeGain
  cutoff := p.cutoff.map fun _ => t.cutoff
  sampleRate := p.sampleRate.map fun _ => t.sampleRate
  mode := none
  proportional := p.proportional.map fun _ => t.proportional
  integral := p.integral.map fun _ => t.integral
  derivative := p.derivative.map fun _ => t.derivative
  maxIntegral := p.maxIntegral.map fun _ => t.maxIntegral
  maxCorrection := p.maxCorrection.map fun _ => t.maxCorrection
  fullYawRate := p.fullYawRate.map fun _ => t.fullYawRate
  fade := p.fade.map fun _ => t.fade
  pitchEnabled := p.pitchEnabled.map fun _ => t.pitchEnabled
  pitchGain := p.pitchGain.map fun _ => t.pitchGain
  maxPitchCorrection := p.maxPitchCorrection.map fun _ => t.maxPitchCorrection

/-- Without a mode a change only sets the named fields. -/
theorem apply_of_mode_eq_none (h : p.mode = none) (t : Tuning Float32) :
  p.apply t = p.assign t
  := by rw [apply, preset, h]

theorem assign_assign (p : Patch Float32) (t : Tuning Float32) :
  p.assign (p.assign t) = p.assign t
  := by simp only [assign, getD_getD]

theorem assign_undo (p : Patch Float32) (t : Tuning Float32) :
  (p.undo t).assign (p.assign t) = t
  := by simp only [assign, undo, getD_map_const]

theorem named_undo (p : Patch Float32) (t : Tuning Float32) :
  (p.undo t).named = p.named
  := by simp only [named, undo, Option.isSome_map]

theorem Disjoint.symm (h : Disjoint p q) :
  Disjoint q p
  := by
  simp only [Disjoint, named, List.zip_cons_cons, List.zip_nil_right, List.forall_mem_cons] at h ⊢
  simpa only [and_comm] using h

/-- Changes of different fields can be made in either order. -/
theorem Disjoint.assign_comm (h : Disjoint p q) (t : Tuning Float32) :
  p.assign (q.assign t) = q.assign (p.assign t)
  := by
  simp only [Disjoint, named, List.zip_cons_cons, List.zip_nil_right, List.forall_mem_cons,
    not_and, Bool.not_eq_true, Option.isSome_eq_false_iff] at h
  obtain ⟨h₁, h₂, h₃, h₄, h₅, h₆, h₇, h₈, h₉, h₁₀, h₁₁, h₁₂, h₁₃, h₁₄, -⟩ := h
  simp only [assign, getD_comm h₁, getD_comm h₂, getD_comm h₃, getD_comm h₄, getD_comm h₅,
    getD_comm h₆, getD_comm h₇, getD_comm h₈, getD_comm h₉, getD_comm h₁₀, getD_comm h₁₁,
    getD_comm h₁₂, getD_comm h₁₃, getD_comm h₁₄]

theorem Disjoint.undo (h : Disjoint p q) (t : Tuning Float32) :
  Disjoint p (q.undo t)
  := by
  rw [Disjoint, named_undo]
  exact h

theorem clamped_assign_clamped (p : Patch Float32) (t : Tuning Float32) :
  (p.assign t.clamped).clamped = (p.assign t).clamped
  := by
  simp (disch := decide +kernel) only [clamped, assign, within_getD, ofCode_code, min_getD]

/-! ### Changes that are held -/

/-- A tuning has the values of a change, brought in range: the change would change
nothing. -/
def HeldBy (p : Patch Float32) (t : Tuning Float32) : Prop :=
  (p.assign t).clamped = t

instance (p : Patch Float32) (t : Tuning Float32) : Decidable (p.HeldBy t) :=
  inferInstanceAs (Decidable (_ = _))

/-- A change is held by what it leads to. -/
theorem heldBy_assign (p : Patch Float32) (t : Tuning Float32) :
  p.HeldBy (p.assign t).clamped
  := by rw [HeldBy, clamped_assign_clamped, assign_assign]

/-- A change of other fields does not undo a change. -/
theorem HeldBy.assign (h : p.HeldBy t) (hd : Disjoint p q) :
  p.HeldBy (q.assign t).clamped
  := by
  rw [HeldBy] at *
  calc (p.assign (q.assign t).clamped).clamped
      = (p.assign (q.assign t)).clamped := clamped_assign_clamped p _
    _ = (q.assign (p.assign t)).clamped := by rw [hd.assign_comm]
    _ = (q.assign (p.assign t).clamped).clamped := (clamped_assign_clamped q _).symm
    _ = (q.assign t).clamped := by rw [h]

/-- Nor does it make a change held that was not. -/
theorem Disjoint.heldBy_assign_iff (hd : Disjoint p q) (ht : t.clamped = t) :
  p.HeldBy (q.assign t).clamped ↔ p.HeldBy t
  := by
  constructor
  · intro h
    have hback : ((q.undo t).assign (q.assign t).clamped).clamped = t := by
      rw [clamped_assign_clamped, assign_undo, ht]
    have hkept := h.assign (hd.undo t)
    rwa [hback] at hkept
  · intro h
    exact h.assign hd

end Patch

end ModelCar.Tuning
