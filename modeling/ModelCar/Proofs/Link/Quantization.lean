import ModelCar.Link.Message
import ModelCar.Proofs.Drive.Controls

/-!
# Quantized control positions

A control position is sent as a fraction of `32767`.  In exact arithmetic it arrives with
an error of half a step at most.  In single precision the product and the quotient are
rounded as well, which adds very little.
-/

namespace ModelCar.Link

open Float.Model

/-- A fraction with the denominator `32767` is as close as its numerator, but for the
denominator. -/
theorem abs_fraction_sub_le {c b : ℝ} {n : ℤ} (h : |n - c * 32767| ≤ b) :
  |n / 32767 - c| ≤ b / 32767
  := by
  have hn : (n / 32767 - c : ℝ) = (n - c * 32767) / 32767 := by ring
  rw [hn, abs_div, abs_of_pos (by norm_num : (0 : ℝ) < 32767)]
  gcongr

theorem abs_fraction_le {n : ℤ} (h : |n| ≤ 32767) :
  |(n / 32767 : ℝ)| ≤ 1
  := by
  rw [abs_div, abs_of_pos (by norm_num : (0 : ℝ) < 32767), div_le_one (by norm_num)]
  exact_mod_cast h

/-! ### Exact arithmetic -/

/-- A control position as a fraction of `32767`, in exact arithmetic. -/
noncomputable def quantizeReal (x : ℝ) : Int16 :=
  @quantize ℝ realScalar _ x

/-- The control position of a fraction of `32767`, in exact arithmetic. -/
noncomputable def dequantizeReal (q : Int16) : ℝ :=
  @dequantize ℝ realScalar _ q

theorem toInt_quantizeReal (x : ℝ) :
  (quantizeReal x).toInt = nearest (max (-1) (min 1 x) * 32767) ∧
    |(quantizeReal x).toInt| ≤ 32767
  := by
  have hp : |max (-1) (min 1 x) * 32767| ≤ (32767 : ℤ) := by
    have := abs_max_min_le zero_le_one x
    rw [abs_mul]
    norm_num
    linarith
  have hn := abs_le_of_close (abs_nearest_sub_le _) hp
  obtain ⟨hlo, hhi⟩ := abs_le.mp hn
  have hq : quantizeReal x = .ofInt (nearest (max (-1) (min 1 x) * 32767)) := by
    rw [← clampUnit_real]
    show Int16.ofInt (max (-32768) (min 32767
      (nearest (@Scalar.clampUnit ℝ realScalar x * (32767.0 : ℝ))))) = _
    rw [clampUnit_real]
    norm_num only
    rw [min_eq_right (by exact_mod_cast hhi), max_eq_right (by omega)]
  rw [hq, Int16.toInt_ofInt_of_le (by omega) (by omega)]
  exact ⟨rfl, hn⟩

/-- A control position arrives with an error of half a step at most. -/
theorem abs_dequantizeReal_quantizeReal_sub_le (x : ℝ) :
  |dequantizeReal (quantizeReal x) - max (-1) (min 1 x)| ≤ 1 / 65534
  := by
  obtain ⟨heq, hle⟩ := toInt_quantizeReal x
  have hnear := abs_nearest_sub_le (max (-1) (min 1 x) * 32767)
  rw [← heq] at hnear
  have hclose := abs_fraction_sub_le hnear
  have hfraction : dequantizeReal (quantizeReal x) = ((quantizeReal x).toInt / 32767 : ℝ) := by
    show @Scalar.clampUnit ℝ realScalar ((quantizeReal x).toInt / (32767.0 : ℝ)) = _
    rw [clampUnit_real]
    norm_num only
    exact max_min_of_abs_le (abs_fraction_le hle)
  rw [hfraction]
  norm_num at hclose ⊢
  exact hclose

/-! ### Single precision -/

theorem single_clampUnit_mem (x : Float32) :
  (Scalar.clampUnit x).isFinite ∧ |single (Scalar.clampUnit x)| ≤ 1
  := inUnit_iff.mp (inUnit_clampUnit x)

/-- The control position that a number stands for. -/
noncomputable def position (x : Float32) : ℝ :=
  single (Scalar.clampUnit x)

theorem abs_position_le (x : Float32) :
  |position x| ≤ 1
  := (single_clampUnit_mem x).2

theorem position_of_isNaN {x : Float32} (h : x.isNaN) :
  position x = 0
  := by
  have hx : Scalar.clampUnit x = 0.0 := if_pos h
  rw [position, hx, single_zero]

/-- A finite number is brought to the range as its value is. -/
theorem position_of_isFinite {x : Float32} (h : x.isFinite) :
  position x = max (-1) (min 1 (single x))
  := by
  obtain ⟨hone, h1⟩ := single_one
  obtain ⟨hneg, h2⟩ := single_neg_one
  have hclamp : Scalar.clampUnit x = if x < -1.0 then -1.0 else if 1.0 < x then 1.0 else x :=
    if_neg (not_isNaN_of_isFinite h)
  rw [position, hclamp]
  simp only [single_lt_iff h hneg, single_lt_iff hone h, h2, h1]
  split
  · rename_i hlo
    rw [h2, min_eq_right (by linarith), max_eq_left hlo.le]
  · split
    · rename_i hhi
      rw [h1, min_eq_left hhi.le, max_eq_right (by norm_num)]
    · rw [min_eq_right (by linarith), max_eq_right (by linarith)]

theorem single_steps :
  (32767.0 : Float32).isFinite ∧ single 32767.0 = 32767
  := by
  have h : (32767.0 : Float32).toModel.unpack
      = .finite .positive (32767 * 2 ^ 9) (-9) (by decide) := rfl
  use rfl
  rw [single, h, value_positive]
  norm_num

/-- The product is rounded by one step in `512` at most, and then to an integer. -/
theorem toInt_quantize_single (x : Float32) :
  |(quantize x).toInt - position x * 32767| ≤ 1 / 2 + 1 / 2 ^ 9 ∧
    |(quantize x).toInt| ≤ 32767
  := by
  obtain ⟨hc, hc1⟩ := single_clampUnit_mem x
  obtain ⟨hsteps, h32767⟩ := single_steps
  have hproduct : |single (Scalar.clampUnit x) * 32767| ≤ 32767 := by
    rw [abs_mul, abs_of_pos (by norm_num : (0 : ℝ) < 32767)]
    linarith
  have hr := rounds_single_mul hc hsteps
  rw [h32767] at hr
  replace hr := hr (le_maxValue_single hproduct)
  have hle : |single (Scalar.clampUnit x * 32767.0)| ≤ (32767 : ℤ) := by
    have hrep : Representable .binary32 (32767 : Nat) := representable_natCast (by decide)
    exact_mod_cast hr.abs_value_le hrep (by exact_mod_cast hproduct)
  have hfar : |single (Scalar.clampUnit x * 32767.0) - single (Scalar.clampUnit x) * 32767|
      ≤ 2 ^ (-9 : ℤ) := by
    apply hr.abs_sub_le (by decide)
    have hm : Format.binary32.mantissaBits = 24 := rfl
    rw [hm]
    norm_num
    linarith
  obtain ⟨hnear, hn⟩ := nearestInt_spec (-32768) 32767 hr.isFinite hle (by decide)
    le_rfl
  have hq : quantize x
      = .ofInt (nearestInt (-32768) 32767 (Scalar.clampUnit x * 32767.0)) := rfl
  obtain ⟨hlo, hhi⟩ := abs_le.mp hn
  rw [hq, Int16.toInt_ofInt_of_le (by omega) (by omega)]
  refine ⟨?_, hn⟩
  have htriangle := abs_sub_le
    (nearestInt (-32768) 32767 (Scalar.clampUnit x * 32767.0) : ℝ)
    (single (Scalar.clampUnit x * 32767.0)) (single (Scalar.clampUnit x) * 32767)
  norm_num at hfar ⊢
  rw [position]
  linarith

/-- A control position that is sent in single precision arrives with hardly more than half a
step of error. -/
theorem abs_single_dequantize_quantize_sub_le (x : Float32) :
  |single (dequantize (quantize x)) - position x| ≤ 1 / 65534 + 1 / 2 ^ 22
  := by
  obtain ⟨hclose, hle⟩ := toInt_quantize_single x
  replace hclose := abs_fraction_sub_le hclose
  have hunit := abs_fraction_le hle
  obtain ⟨hsteps, h32767⟩ := single_steps
  obtain ⟨hn, hvalue⟩ := single_ofInt (hle.trans_lt (by norm_num))
  have hr := rounds_single_div hn hsteps
  rw [h32767, hvalue] at hr
  replace hr := hr (by norm_num) (le_maxValue_single (by linarith))
  have hrep : Representable .binary32 (1 : Nat) := representable_natCast (by decide)
  have hone := hr.abs_value_le hrep (by exact_mod_cast hunit)
  have hfar := hr.abs_sub_le (e := -23) (by decide) (by
    have hm : Format.binary32.mantissaBits = 24 := rfl
    rw [hm]
    norm_num
    linarith)
  have hd : dequantize (quantize x) = Float32.ofInt (quantize x).toInt / 32767.0 := by
    apply InUnit.clampUnit_eq
    apply inUnit_iff.mpr
    use hr.isFinite
    exact_mod_cast hone
  rw [hd]
  have htriangle := abs_sub_le (single (Float32.ofInt (quantize x).toInt / 32767.0))
    ((quantize x).toInt / 32767) (position x)
  norm_num at hfar hclose ⊢
  change |single (Float32.ofInt (quantize x).toInt / 32767.0) - _| ≤ _ at hfar
  linarith

end ModelCar.Link
