import ModelCar.Proofs.Stabilization.Patch

/-!
# Fields of a tuning

A tuning is the values of its fields, its mode and its mark: `ext_value`.  A change gives the
fields that it names new values and leaves the others as they are, or as the preset of a new
mode has them: `value_apply`.  So a change that is made twice is made once, also if a tuning
is brought in range after each time: `apply_apply`, `settle_settle`.  A mode without a number
of its own stands for the normal one, so it differs from every mode that a tuning can have
afterwards, and its preset is put in both times.
-/

namespace ModelCar.Tuning

/-! ### Values -/

/-- The fields of a tuning that a change can name, the mode apart. -/
inductive Field where
  | enabled
  | attitudeGain
  | cutoff
  | sampleRate
  | proportional
  | integral
  | derivative
  | maxIntegral
  | maxCorrection
  | fullYawRate
  | fade
  | pitchEnabled
  | pitchGain
  | maxPitchCorrection
deriving DecidableEq

namespace Field

/-- The values of a field. -/
def Value : Field → Type
  | enabled | pitchEnabled => Bool
  | fade => Millis
  | attitudeGain | cutoff | sampleRate | proportional | integral | derivative
  | maxIntegral | maxCorrection | fullYawRate | pitchGain | maxPitchCorrection => Float32

/-- The preset of a drive mode has a value for the field. -/
def IsPreset : Field → Prop
  | proportional | integral | derivative | maxCorrection | fullYawRate | pitchGain
  | maxPitchCorrection => True
  | enabled | attitudeGain | cutoff | sampleRate | maxIntegral | fade | pitchEnabled => False

end Field

/-- The value of a field of a tuning. -/
def value (t : Tuning Float32) : (f : Field) → f.Value
  | .enabled => t.enabled
  | .attitudeGain => t.attitudeGain
  | .cutoff => t.cutoff
  | .sampleRate => t.sampleRate
  | .proportional => t.proportional
  | .integral => t.integral
  | .derivative => t.derivative
  | .maxIntegral => t.maxIntegral
  | .maxCorrection => t.maxCorrection
  | .fullYawRate => t.fullYawRate
  | .fade => t.fade
  | .pitchEnabled => t.pitchEnabled
  | .pitchGain => t.pitchGain
  | .maxPitchCorrection => t.maxPitchCorrection

/-- The value that a change has for a field, if it names the field. -/
def Patch.value? (p : Patch Float32) : (f : Field) → Option f.Value
  | .enabled => p.enabled
  | .attitudeGain => p.attitudeGain
  | .cutoff => p.cutoff
  | .sampleRate => p.sampleRate
  | .proportional => p.proportional
  | .integral => p.integral
  | .derivative => p.derivative
  | .maxIntegral => p.maxIntegral
  | .maxCorrection => p.maxCorrection
  | .fullYawRate => p.fullYawRate
  | .fade => p.fade
  | .pitchEnabled => p.pitchEnabled
  | .pitchGain => p.pitchGain
  | .maxPitchCorrection => p.maxPitchCorrection

variable {p : Patch Float32} {t u : Tuning Float32}

/-- A tuning is determined by the values of its fields, its mode and its mark. -/
theorem ext_value (h : ∀ f, t.value f = u.value f) (hmode : t.mode = u.mode)
    (hmagic : t.magic = u.magic) :
  t = u
  := by
  cases t
  cases u
  rw [mk.injEq]
  exact ⟨h .enabled, h .attitudeGain, h .cutoff, h .sampleRate, hmode, h .proportional,
    h .integral, h .derivative, h .maxIntegral, h .maxCorrection, h .fullYawRate, h .fade,
    h .pitchEnabled, h .pitchGain, h .maxPitchCorrection, hmagic⟩

/-! ### Presets -/

/-- A preset does not depend on the tuning that it is put in. -/
theorem value_withMode_of_preset {f : Field} (h : f.IsPreset) (t u : Tuning Float32)
    (mode : DriveMode) :
  (t.withMode mode).value f = (u.withMode mode).value f
  := by
  cases f with
  | proportional | integral | derivative | maxCorrection | fullYawRate | pitchGain
  | maxPitchCorrection => cases mode <;> rfl
  | enabled | attitudeGain | cutoff | sampleRate | maxIntegral | fade | pitchEnabled => cases h

theorem value_withMode_of_not_preset {f : Field} (h : ¬ f.IsPreset) (t : Tuning Float32)
    (mode : DriveMode) :
  (t.withMode mode).value f = t.value f
  := by
  cases f with
  | proportional | integral | derivative | maxCorrection | fullYawRate | pitchGain
  | maxPitchCorrection => cases h trivial
  | enabled | attitudeGain | cutoff | sampleRate | maxIntegral | fade | pitchEnabled =>
      cases mode <;> rfl

theorem mode_withMode (t : Tuning Float32) (mode : DriveMode) :
  (t.withMode mode).mode = mode.code
  := by cases mode <;> rfl

theorem magic_withMode (t : Tuning Float32) (mode : DriveMode) :
  (t.withMode mode).magic = t.magic
  := by cases mode <;> rfl

/-- It makes no difference whether a tuning is brought in range before a preset is put in as
well. -/
theorem clamped_withMode_clamped (t : Tuning Float32) (mode : DriveMode) :
  (t.clamped.withMode mode).clamped = (t.withMode mode).clamped
  := by
  cases mode <;>
    simp (disch := decide +kernel) only [clamped, withMode, within_within, min_min]

/-- The mode of a tuning is the number of a drive mode. -/
def KnowsMode (t : Tuning Float32) : Prop :=
  ∃ mode : DriveMode, t.mode = mode.code

theorem knowsMode_of_clamped (h : t.clamped = t) :
  t.KnowsMode
  := ⟨.ofCode t.mode, congrArg mode h.symm⟩

theorem KnowsMode.mode_clamped (h : t.KnowsMode) :
  t.clamped.mode = t.mode
  := by
  obtain ⟨mode, hm⟩ := h
  show (DriveMode.ofCode t.mode).code = t.mode
  rw [hm, ofCode_code]

namespace Patch

/-! ### Changes -/

/-- A change names no other mode than the one that a tuning has. -/
def KeepsMode (p : Patch Float32) (t : Tuning Float32) : Prop :=
  ∀ mode ∈ p.mode, mode = t.mode

theorem apply_of_keepsMode (h : p.KeepsMode t) :
  p.apply t = p.assign t
  := by
  rw [apply, preset]
  cases hm : p.mode with
  | none => rfl
  | some mode =>
      simp only
      rw [if_pos (h mode hm)]

theorem apply_of_mode_ne {mode : UInt8} (hm : p.mode = some mode) (h : mode ≠ t.mode) :
  p.apply t = p.assign (t.withMode (.ofCode mode))
  := by
  rw [apply, preset, hm]
  simp only
  rw [if_neg h]

/-- A change keeps the mode, or it names another one. -/
theorem keepsMode_or (p : Patch Float32) (t : Tuning Float32) :
  p.KeepsMode t ∨ ∃ mode, p.mode = some mode ∧ mode ≠ t.mode
  := by
  by_cases h : p.KeepsMode t
  · left
    exact h
  · right
    rw [KeepsMode] at h
    push Not at h
    exact h

theorem value_assign (p : Patch Float32) (t : Tuning Float32) (f : Field) :
  (p.assign t).value f = (p.value? f).getD (t.value f)
  := by cases f <;> rfl

/-- A field that is named gets the new value, and any other one the value that the tuning
has after the preset. -/
theorem value_apply (p : Patch Float32) (t : Tuning Float32) (f : Field) :
  (p.apply t).value f = (p.value? f).getD ((p.preset t).value f)
  := value_assign p (p.preset t) f

/-- To put in a preset once more and then the named values changes nothing. -/
theorem assign_withMode_assign (p : Patch Float32) (t : Tuning Float32) (mode : DriveMode) :
  p.assign ((p.assign (t.withMode mode)).withMode mode) = p.assign (t.withMode mode)
  := by
  apply ext_value
  · intro f
    rw [value_assign, value_assign]
    cases hv : p.value? f with
    | some v => rfl
    | none =>
        by_cases hf : f.IsPreset
        · apply value_withMode_of_preset hf
        · rw [value_withMode_of_not_preset hf, value_assign, hv]
          rfl
  · exact (mode_withMode _ mode).trans (mode_withMode t mode).symm
  · apply magic_withMode

/-- What a change has done to a tuning decides what it does the next time: it sets the named
fields again, and if it has named a mode without a number it also puts in the preset of the
normal mode again. -/
inductive Repeats (p : Patch Float32) (t : Tuning Float32) : Prop where
  | plain (r : Tuning Float32) (happly : p.apply t = p.assign r)
      (hknows : t.KnowsMode → r.KnowsMode)
      (hagain : ∀ u : Tuning Float32, u.mode = r.mode → p.apply u = p.assign u)
  | preset (mode : DriveMode) (happly : p.apply t = p.assign (t.withMode mode))
      (hagain : ∀ u : Tuning Float32, u.mode = mode.code →
        p.apply u = p.assign (u.withMode mode))

theorem repeats (p : Patch Float32) (t : Tuning Float32) :
  p.Repeats t
  := by
  obtain h | ⟨mode, hm, hne⟩ := p.keepsMode_or t
  · apply Repeats.plain t (apply_of_keepsMode h) id
    intro u hu
    apply apply_of_keepsMode
    rw [KeepsMode, hu]
    exact h
  · have happly := apply_of_mode_ne hm hne
    by_cases hknown : mode = (DriveMode.ofCode mode).code
    · apply Repeats.plain _ happly fun _ => ⟨_, mode_withMode t _⟩
      intro u hu
      apply apply_of_keepsMode
      intro named hn
      cases hm.symm.trans hn
      rw [hu, mode_withMode]
      exact hknown
    · apply Repeats.preset _ happly
      intro u hu
      apply apply_of_mode_ne hm
      rw [hu]
      exact hknown

/-- A change that is made twice is made once. -/
theorem apply_apply (p : Patch Float32) (t : Tuning Float32) :
  p.apply (p.apply t) = p.apply t
  := by
  cases p.repeats t with
  | plain r happly _ hagain =>
      rw [happly, hagain (p.assign r) rfl, assign_assign]
  | preset mode happly hagain =>
      have hmode : (p.assign (t.withMode mode)).mode = mode.code := mode_withMode t mode
      rw [happly, hagain _ hmode, assign_withMode_assign]

/-- The tuning in range after a change. -/
def settle (p : Patch Float32) (t : Tuning Float32) : Tuning Float32 :=
  (p.apply t).clamped

/-- So is a change of a tuning with a known mode that is brought in range after each time. -/
theorem settle_settle (p : Patch Float32) (h : t.KnowsMode) :
  p.settle (p.settle t) = p.settle t
  := by
  rw [settle, settle]
  cases p.repeats t with
  | plain r happly hknows hagain =>
      have hassign : (p.assign r).KnowsMode := hknows h
      have hmode : (p.assign r).clamped.mode = r.mode := hassign.mode_clamped
      rw [happly, hagain _ hmode, clamped_assign_clamped, assign_assign]
  | preset mode happly hagain =>
      have hassign : (p.assign (t.withMode mode)).KnowsMode := ⟨mode, mode_withMode t mode⟩
      have hmode : (p.assign (t.withMode mode)).clamped.mode = mode.code :=
        hassign.mode_clamped.trans (mode_withMode t mode)
      rw [happly, hagain _ hmode, ← clamped_assign_clamped, clamped_withMode_clamped,
        clamped_assign_clamped, assign_withMode_assign]

/-! ### All fields -/

/-- The change that names all fields of a tuning, with the values that they have. -/
def ofTuning (t : Tuning Float32) : Patch Float32 where
  enabled := t.enabled
  attitudeGain := t.attitudeGain
  cutoff := t.cutoff
  sampleRate := t.sampleRate
  mode := t.mode
  proportional := t.proportional
  integral := t.integral
  derivative := t.derivative
  maxIntegral := t.maxIntegral
  maxCorrection := t.maxCorrection
  fullYawRate := t.fullYawRate
  fade := t.fade
  pitchEnabled := t.pitchEnabled
  pitchGain := t.pitchGain
  maxPitchCorrection := t.maxPitchCorrection

theorem assign_ofTuning (t u : Tuning Float32) :
  (ofTuning t).assign u = { t with mode := u.mode, magic := u.magic }
  := rfl

/-- Naming all fields of a tuning with a known mode leads to this tuning from every other
one. -/
theorem apply_ofTuning (h : t.KnowsMode) (u : Tuning Float32) :
  (ofTuning t).apply u = { t with magic := u.magic }
  := by
  obtain ⟨mode, hm⟩ := h
  by_cases heq : t.mode = u.mode
  · have hkeeps : (ofTuning t).KeepsMode u := by
      rintro named ⟨⟩
      exact heq
    rw [apply_of_keepsMode hkeeps, assign_ofTuning, heq]
  · rw [apply_of_mode_ne rfl heq, assign_ofTuning, mode_withMode, magic_withMode, hm,
      ofCode_code]

end Patch

end ModelCar.Tuning
