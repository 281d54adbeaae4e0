import ModelCar.Proofs.Control.Setup
import ModelCar.Proofs.Stabilization.Fields

/-!
# Tunings sent back

The control loop tells which tuning is in use.  A change that names all its fields brings it
back later, whatever tuning is in use by then: the tuning is in range already, so nothing
else becomes of it.  `patch_laws` says this together with the laws of all changes.
-/

namespace ModelCar

namespace Tuning.Patch

variable {t u : Tuning Float32}

/-- A tuning in range that may be used is what its fields lead to, from every tuning with the
mark. -/
theorem settle_ofTuning (h : t.IsClean) (hu : u.magic = mark) :
  (ofTuning t).settle u = t
  := by
  rw [settle, apply_ofTuning (knowsMode_of_clamped h.2), hu, ← h.1.1]
  exact h.2

end Tuning.Patch

namespace Control

/-- A change of the tuning to one that may be used in range is answered as done. -/
theorem retune_of_valid (c : Control) {t : Tuning Float32} (h : t.clamped.IsValid)
    (keep : Bool) :
  (c.retune t keep none).1 = .ok t.clamped ∧
    (c.retune t keep none).2.1.tuning = t.clamped
  := by
  have hanswer : (c.retune t keep none).1 = .ok t.clamped := by
    cases keep with
    | false => simp [retune, h]
    | true => simp [retune, h]
  obtain ⟨-, -, hcontrol, -⟩ := retune_of_ok hanswer
  use hanswer
  rw [hcontrol, use_eq]
  rfl

end Control

namespace Car

open Tuning

variable {car later : Car}

/-- The tuning in use at some time can be sent back at any time later. -/
theorem IsReachable.restores (h : car.IsReachable) (hl : later.IsReachable) (keep : Bool) :
  (later.control.retune ((Patch.ofTuning car.control.tuning).apply later.control.tuning) keep
      none).1 = .ok car.control.tuning ∧
    (later.control.retune ((Patch.ofTuning car.control.tuning).apply later.control.tuning) keep
      none).2.1.tuning = car.control.tuning
  := by
  have hclean := h.settled.isClean
  have hsettle := Patch.settle_ofTuning hclean hl.settled.isClean.1.1
  rw [Patch.settle] at hsettle
  have hvalid : ((Patch.ofTuning car.control.tuning).apply
      later.control.tuning).clamped.IsValid := by
    rw [hsettle]
    exact hclean.1
  have hdone := later.control.retune_of_valid hvalid keep
  rwa [hsettle] at hdone

/-- A change that is made twice is made once, also if a tuning in range is brought in range
after each time, and whatever mode is named.  Every field that is named gets its new value,
and without a change of the mode all else stays as it is.  Naming all fields of a tuning with
a known mode leads to this tuning from every other one with the same mark; so a tuning that
was in use at some time is in use again as soon as it is sent back, and is what the control
loop answers. -/
theorem patch_laws (p : Patch Float32) (b : Tuning Float32) :
  p.apply (p.apply b) = p.apply b ∧
  (b.clamped = b → (p.apply (p.apply b).clamped).clamped = (p.apply b).clamped) ∧
  (∀ f v, p.value? f = some v → (p.apply b).value f = v) ∧
  (p.KeepsMode b → (∀ f, p.value? f = none → (p.apply b).value f = b.value f) ∧
    (p.apply b).mode = b.mode ∧ (p.apply b).magic = b.magic) ∧
  (∀ t : Tuning Float32, t.KnowsMode →
    (Patch.ofTuning t).apply b = { t with magic := b.magic }) ∧
  ∀ (car later : Car), car.IsReachable → later.IsReachable → ∀ keep,
    (later.control.retune ((Patch.ofTuning car.control.tuning).apply later.control.tuning)
        keep none).1 = .ok car.control.tuning ∧
      (later.control.retune ((Patch.ofTuning car.control.tuning).apply later.control.tuning)
        keep none).2.1.tuning = car.control.tuning
  := by
  refine ⟨p.apply_apply b, ?_, ?_, ?_, ?_, ?_⟩
  · intro h
    exact p.settle_settle (knowsMode_of_clamped h)
  · intro f v hv
    rw [Patch.value_apply, hv]
    rfl
  · intro h
    rw [Patch.apply_of_keepsMode h]
    refine ⟨?_, rfl, rfl⟩
    intro f hf
    rw [Patch.value_assign, hf]
    rfl
  · intro t h
    exact Patch.apply_ofTuning h b
  · intro car later h hl keep
    exact h.restores hl keep

/-- A cutoff beyond its range, and a mode without a number. -/
def wildPatch : Patch Float32 :=
  { (default : Patch Float32) with cutoff := some 200.0, mode := some 9 }

/-- The cutoff alone. -/
def cutoffPatch : Patch Float32 :=
  { wildPatch with mode := none }

/-- The preset for sport. -/
def sporty : Tuning Float32 :=
  Tuning.standard.withMode .sport

/-- A car that has been started. -/
def startedCar : Car :=
  (⟨.ofSettings {}, none⟩ : Car).after [.start .plain]

/-- A car that has been started and got another tuning. -/
def sportyCar : Car :=
  (⟨.ofSettings {}, none⟩ : Car).after [.start .plain, .retune sporty true none]

/-- The mode without a number brings the preset of the normal mode back both times, with the
longest cutoff of the range; the cutoff alone leaves the preset for sport as it is; and the
first tuning is in use again when it is sent back. -/
theorem patch_laws_of_wildPatch :
  sporty.clamped = sporty ∧
    (wildPatch.apply (wildPatch.apply sporty).clamped).clamped
      = { (Tuning.standard : Tuning Float32) with cutoff := 100.0 } ∧
    (wildPatch.apply sporty).value .cutoff = (200.0 : Float32) ∧
    cutoffPatch.KeepsMode sporty ∧
    (cutoffPatch.apply sporty).value .proportional = (0.2 : Float32) ∧
    (Patch.ofTuning sporty).apply .standard = sporty ∧
    startedCar.IsReachable ∧ sportyCar.IsReachable ∧
    (sportyCar.control.retune ((Patch.ofTuning startedCar.control.tuning).apply
      sportyCar.control.tuning) true none).1 = .ok .standard
  := by
  have hclamped : sporty.clamped = sporty := by decide +kernel
  have hkeeps : cutoffPatch.KeepsMode sporty := by
    rintro mode ⟨⟩
  have hstarted : startedCar.IsReachable := ⟨{}, none, _, rfl⟩
  have hsporty : sportyCar.IsReachable := ⟨{}, none, _, rfl⟩
  have htuning : startedCar.control.tuning = .standard := by decide +kernel
  obtain ⟨-, hsettle, hnamed, -, -, hrestored⟩ := patch_laws wildPatch sporty
  obtain ⟨-, -, -, hkept, -⟩ := patch_laws cutoffPatch sporty
  obtain ⟨-, -, -, -, hall, -⟩ := patch_laws wildPatch .standard
  refine ⟨hclamped, ?_, ?_, hkeeps, ?_, ?_, hstarted, hsporty, ?_⟩
  · rw [hsettle hclamped]
    decide +kernel
  · apply hnamed
    rfl
  · rw [(hkept hkeeps).1 .proportional rfl]
    show sporty.proportional = 0.2
    decide +kernel
  · exact hall sporty ⟨.sport, rfl⟩
  · rw [(hrestored startedCar sportyCar hstarted hsporty true).1, htuning]

end Car

end ModelCar
