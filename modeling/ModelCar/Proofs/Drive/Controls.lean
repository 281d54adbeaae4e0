import ModelCar.Drive.Controls
import ModelCar.Proofs.Number.Sign
import ModelCar.Proofs.Number.Single

/-!
# Positions as real numbers

The positions of the controls are the finite numbers whose value lies between `-1` and
`1`.
-/

namespace ModelCar

variable {x : Float32}

theorem single_neg_one :
  (-1.0 : Float32).isFinite ∧ single (-1.0) = -1
  := by
  obtain ⟨hone, h1⟩ := single_one
  rw [← h1]
  apply single_neg hone

theorem inUnit_iff :
  InUnit x ↔ x.isFinite ∧ |single x| ≤ 1
  := by
  obtain ⟨hone, h1⟩ := single_one
  obtain ⟨hneg, h2⟩ := single_neg_one
  constructor
  · intro ⟨hn, hlo, hhi⟩
    have hx := isFinite_of_not_lt hneg hone hn hlo hhi
    rw [single_lt_iff hx hneg, h2, not_lt] at hlo
    rw [single_lt_iff hone hx, h1, not_lt] at hhi
    exact ⟨hx, abs_le.mpr ⟨hlo, hhi⟩⟩
  · intro ⟨hx, h⟩
    obtain ⟨hlo, hhi⟩ := abs_le.mp h
    refine ⟨not_isNaN_of_isFinite hx, ?_, ?_⟩
    · rw [single_lt_iff hx hneg, h2]
      exact not_lt.mpr hlo
    · rw [single_lt_iff hone hx, h1]
      exact not_lt.mpr hhi

/-- A position stays as it is when it is brought to the range. -/
theorem InUnit.clampUnit_eq (h : InUnit x) :
  Scalar.clampUnit x = x
  := by
  obtain ⟨hn, hlo, hhi⟩ := h
  exact (if_neg hn).trans ((if_neg hlo).trans (if_neg hhi))

end ModelCar
