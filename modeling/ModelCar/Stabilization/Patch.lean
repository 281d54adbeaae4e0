import ModelCar.Stabilization.Tuning

/-!
# Changes of a tuning

A `Patch` names some fields of a tuning with new values.  A new drive mode brings its
preset first, and the named fields are set after that.
-/

namespace ModelCar.Tuning

/-- New values for some fields of a tuning. -/
structure Patch (α : Type) where
  enabled : Option Bool
  attitudeGain : Option α
  cutoff : Option α
  sampleRate : Option α
  mode : Option UInt8
  proportional : Option α
  integral : Option α
  derivative : Option α
  maxIntegral : Option α
  maxCorrection : Option α
  fullYawRate : Option α
  fade : Option Millis
  pitchEnabled : Option Bool
  pitchGain : Option α
  maxPitchCorrection : Option α
deriving DecidableEq, Inhabited

namespace Patch

variable {α : Type} [Scalar α]

/-- The preset of a mode that is named and differs from the present one. -/
def preset (p : Patch α) (t : Tuning α) : Tuning α :=
  match p.mode with
  | none => t
  | some mode => if mode = t.mode then t else t.withMode (.ofCode mode)

/-- Sets the named fields other than the mode. -/
def assign (p : Patch α) (t : Tuning α) : Tuning α where
  enabled := p.enabled.getD t.enabled
  attitudeGain := p.attitudeGain.getD t.attitudeGain
  cutoff := p.cutoff.getD t.cutoff
  sampleRate := p.sampleRate.getD t.sampleRate
  mode := t.mode
  proportional := p.proportional.getD t.proportional
  integral := p.integral.getD t.integral
  derivative := p.derivative.getD t.derivative
  maxIntegral := p.maxIntegral.getD t.maxIntegral
  maxCorrection := p.maxCorrection.getD t.maxCorrection
  fullYawRate := p.fullYawRate.getD t.fullYawRate
  fade := p.fade.getD t.fade
  pitchEnabled := p.pitchEnabled.getD t.pitchEnabled
  pitchGain := p.pitchGain.getD t.pitchGain
  maxPitchCorrection := p.maxPitchCorrection.getD t.maxPitchCorrection
  magic := t.magic

/-- The tuning after the change. -/
def apply (p : Patch α) (t : Tuning α) : Tuning α :=
  p.assign (p.preset t)

end Patch

end ModelCar.Tuning
