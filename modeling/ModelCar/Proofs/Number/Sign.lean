import ModelCar.Proofs.Number.Packing

/-!
# Signs of binary numbers

The sign of a product or a quotient is the product of the signs, rounding included.  A
zero counts as having either sign, and so does what is not a number: `OnSide s` says
that an unpacked number has the sign `s` in this sense.  For `Float32` it is the
comparison with zero, so products of numbers that are not below zero are not below zero,
and neither are their thousandths.
-/

namespace ModelCar

open Float.Model Float.Model.UnpackedFloat

/-! ### Unpacked numbers -/

/-- An unpacked number lies on the side of zero that a sign stands for, or has no
side. -/
def OnSide (s : Sign) : UnpackedFloat → Prop
  | .infinity t => t = s
  | .notANumber => True
  | .zero _ => True
  | .finite t _ _ _ => t = s

theorem onSide_unpack_packComponents {f : Format} (s : Sign) (e : BitVec f.exponentBits)
    (m : BitVec f.mantissaBitsWithoutImplicit) :
  OnSide s (UnpackedFloat.unpack f (packComponents f s e m))
  := by
  simp only [UnpackedFloat.unpack, sign_packComponents]
  split
  · split
    · rfl
    · trivial
  · split
    · split
      · trivial
      · rfl
    · rfl

/-- Packing does not bring a number to the other side. -/
theorem onSide_unpack_pack {s : Sign} {u : UnpackedFloat} (h : OnSide s u) :
  OnSide s (UnpackedFloat.unpack .binary32 (UnpackedFloat.pack .binary32 u))
  := by
  cases u with
  | notANumber => trivial
  | infinity t =>
      obtain rfl : t = s := h
      apply onSide_unpack_packComponents
  | zero t =>
      rw [UnpackedFloat.pack, unpack_packedZero]
      trivial
  | finite t m e hm =>
      obtain rfl : t = s := h
      simp only [UnpackedFloat.pack]
      split
      · apply onSide_unpack_packComponents
      · split
        · apply onSide_unpack_packComponents
        · apply onSide_unpack_packComponents

/-- Rounding keeps the sign. -/
theorem onSide_roundWithAccuracy (f : Format) (s : Sign) (m : Nat) (e : Int)
    (a : Accuracy) :
  OnSide s (roundWithAccuracy f s m e a)
  := by
  simp only [roundWithAccuracy]
  split
  · trivial
  · rfl

theorem onSide_mul (f : Format) {s t : Sign} {u v : UnpackedFloat} (hu : OnSide s u)
    (hv : OnSide t v) :
  OnSide (s * t) (UnpackedFloat.mul f u v)
  := by
  cases u with
  | notANumber => trivial
  | zero _ => cases v <;> trivial
  | infinity s' =>
      obtain rfl : s' = s := hu
      cases v with
      | notANumber => trivial
      | zero _ => trivial
      | infinity t' => obtain rfl : t' = t := hv; rfl
      | finite t' _ _ _ => obtain rfl : t' = t := hv; rfl
  | finite s' _ _ _ =>
      obtain rfl : s' = s := hu
      cases v with
      | notANumber => trivial
      | zero _ => trivial
      | infinity t' => obtain rfl : t' = t := hv; rfl
      | finite t' _ _ _ =>
          obtain rfl : t' = t := hv
          apply onSide_roundWithAccuracy

/-- The denominator is not a zero, which could have the wrong sign. -/
theorem onSide_div (f : Format) {s t : Sign} {u : UnpackedFloat} (hu : OnSide s u)
    {m : Nat} {e : Int} (hm : 0 < m) :
  OnSide (s / t) (UnpackedFloat.div f u (.finite t m e hm))
  := by
  cases u with
  | notANumber => trivial
  | zero _ => trivial
  | infinity s' => obtain rfl : s' = s := hu; rfl
  | finite s' _ _ _ =>
      obtain rfl : s' = s := hu
      apply onSide_roundWithAccuracy

theorem onSide_neg {s : Sign} {u : UnpackedFloat} (h : OnSide s u) :
  OnSide (-s) u.neg
  := by
  cases u with
  | notANumber => trivial
  | zero _ => trivial
  | infinity t => obtain rfl : t = s := h; rfl
  | finite t _ _ _ => obtain rfl : t = s := h; rfl

/-- The distance from zero is the negative. -/
theorem onSide_zero_sub (f : Format) {s : Sign} {u : UnpackedFloat} (h : OnSide s u) :
  OnSide (-s) (UnpackedFloat.sub f (.zero .positive) u)
  := by
  cases u with
  | notANumber => trivial
  | zero t => cases t <;> trivial
  | infinity t => obtain rfl : t = s := h; rfl
  | finite t _ _ _ => obtain rfl : t = s := h; rfl

/-- A number read from positive digits is on the positive side. -/
theorem onSide_ofScientific (f : Format) (m : Nat) (e : Int) :
  OnSide .positive (UnpackedFloat.ofScientific f m e)
  := by
  unfold UnpackedFloat.ofScientific
  split
  · trivial
  split
  · rfl
  split
  · trivial
  split
  · apply onSide_mul (s := .positive) (t := .positive) <;> rfl
  · apply onSide_div (s := .positive)
    rfl

theorem onSide_ofNat (f : Format) (n : Nat) :
  OnSide .positive (UnpackedFloat.ofNat f n)
  := by
  simp only [UnpackedFloat.ofNat, UnpackedFloat.ofInt, UnpackedFloat.normalize]
  split
  · rename_i h
    rw [Int.compare_eq_lt] at h
    omega
  · trivial
  · apply onSide_roundWithAccuracy

/-! ### Single precision -/

theorem unpack_zero :
  (0.0 : Float32).toModel.unpack = .zero .positive
  := rfl

theorem lt_iff_unpack (x y : Float32) :
  x < y ↔ x.toModel.unpack.lt y.toModel.unpack
  := decide_eq_true_iff

theorem neg_infinity_lt {u : UnpackedFloat} (h : u.isFinite) :
  (UnpackedFloat.infinity .negative).lt u
  := by
  cases u with
  | notANumber => cases h
  | infinity => cases h
  | zero => rfl
  | finite => rfl

theorem lt_infinity {u : UnpackedFloat} (h : u.isFinite) :
  u.lt (UnpackedFloat.infinity .positive)
  := by
  cases u with
  | notANumber => cases h
  | infinity => cases h
  | zero => rfl
  | finite s => cases s <;> rfl

/-- What is a number and not outside of a finite range is finite. -/
theorem isFinite_of_not_lt {lo hi x : Float32} (hlo : lo.isFinite) (hhi : hi.isFinite)
    (hn : ¬ x.isNaN) (hl : ¬ x < lo) (hh : ¬ hi < x) :
  x.isFinite
  := by
  rw [lt_iff_unpack] at hl hh
  show x.toModel.unpack.isFinite
  cases hx : x.toModel.unpack with
  | notANumber =>
      apply absurd _ hn
      show x.toModel.unpack.isNaN
      rw [hx]
      rfl
  | zero => rfl
  | finite => rfl
  | infinity s =>
      rw [hx] at hl hh
      cases s with
      | negative => exact absurd (neg_infinity_lt hlo) hl
      | positive => exact absurd (lt_infinity hhi) hh

/-- A number is not below zero if it has no negative side. -/
theorem not_lt_zero_iff (x : Float32) :
  ¬ x < 0.0 ↔ OnSide .positive x.toModel.unpack
  := by
  rw [lt_iff_unpack, unpack_zero]
  cases x.toModel.unpack with
  | notANumber => simp [OnSide, UnpackedFloat.lt, UnpackedFloat.compare]
  | zero s => simp [OnSide, UnpackedFloat.lt, UnpackedFloat.compare]
  | infinity s => cases s <;> simp [OnSide, UnpackedFloat.lt, UnpackedFloat.compare]
  | finite s _ _ _ => cases s <;> simp [OnSide, UnpackedFloat.lt, UnpackedFloat.compare]

/-- Zero is not below a number that has no positive side. -/
theorem not_zero_lt_iff (x : Float32) :
  ¬ 0.0 < x ↔ OnSide .negative x.toModel.unpack
  := by
  rw [lt_iff_unpack, unpack_zero]
  cases x.toModel.unpack with
  | notANumber => simp [OnSide, UnpackedFloat.lt, UnpackedFloat.compare]
  | zero s => simp [OnSide, UnpackedFloat.lt, UnpackedFloat.compare]
  | infinity s => cases s <;> simp [OnSide, UnpackedFloat.lt, UnpackedFloat.compare]
  | finite s _ _ _ => cases s <;> simp [OnSide, UnpackedFloat.lt, UnpackedFloat.compare]

theorem not_infinity_lt {u : UnpackedFloat} (h : u.isFinite) :
  ¬ (UnpackedFloat.infinity .positive).lt u
  := by
  cases u with
  | notANumber => cases h
  | infinity => cases h
  | zero => exact Bool.false_ne_true
  | finite s => cases s <;> exact Bool.false_ne_true

theorem not_lt_neg_infinity {u : UnpackedFloat} (h : u.isFinite) :
  ¬ u.lt (UnpackedFloat.infinity .negative)
  := by
  cases u with
  | notANumber => cases h
  | infinity => cases h
  | zero => exact Bool.false_ne_true
  | finite s => cases s <;> exact Bool.false_ne_true

/-- What is not below zero but below a finite number is finite. -/
theorem isFinite_of_lt {x y : Float32} (hy : y.isFinite) (hx : ¬ x < 0.0) (h : x < y) :
  x.isFinite
  := by
  rw [not_lt_zero_iff] at hx
  rw [lt_iff_unpack] at h
  show x.toModel.unpack.isFinite
  cases hu : x.toModel.unpack with
  | zero => rfl
  | finite => rfl
  | notANumber =>
      rw [hu] at h
      cases h
  | infinity s =>
      rw [hu] at hx h
      obtain rfl : s = .positive := hx
      cases not_infinity_lt hy h

/-- What is not above zero but above a finite number is finite. -/
theorem isFinite_of_gt {x y : Float32} (hy : y.isFinite) (hx : ¬ 0.0 < x) (h : y < x) :
  x.isFinite
  := by
  rw [not_zero_lt_iff] at hx
  rw [lt_iff_unpack] at h
  show x.toModel.unpack.isFinite
  cases hu : x.toModel.unpack with
  | zero => rfl
  | finite => rfl
  | notANumber =>
      rw [hu] at h
      cases hv : y.toModel.unpack <;> rw [hv] at h <;> cases h
  | infinity s =>
      rw [hu] at hx h
      obtain rfl : s = .negative := hx
      cases not_lt_neg_infinity hy h

theorem not_mul_lt_zero {x y : Float32} (hx : ¬ x < 0.0) (hy : ¬ y < 0.0) :
  ¬ x * y < 0.0
  := by
  rw [not_lt_zero_iff] at *
  apply onSide_unpack_pack
  apply onSide_mul (s := .positive) (t := .positive) _ hx hy

theorem not_div_thousand_lt_zero {x : Float32} (hx : ¬ x < 0.0) :
  ¬ x / 1000.0 < 0.0
  := by
  rw [not_lt_zero_iff] at *
  apply onSide_unpack_pack
  apply onSide_div (s := .positive) (t := .positive) _ hx

/-- What is not below zero is not below zero when it is divided by what is above zero and
finite. -/
theorem not_div_lt_zero {x y : Float32} (hx : ¬ x < 0.0) (hy : 0.0 < y) (hf : y.isFinite) :
  ¬ x / y < 0.0
  := by
  rw [not_lt_zero_iff] at *
  apply onSide_unpack_pack
  rw [lt_iff_unpack, unpack_zero] at hy
  replace hf : y.toModel.unpack.isFinite := hf
  cases hu : y.toModel.unpack with
  | notANumber =>
      rw [hu] at hf
      cases hf
  | infinity t =>
      rw [hu] at hf
      cases hf
  | zero t =>
      rw [hu] at hy
      cases hy
  | finite t m e hm =>
      rw [hu] at hy
      cases t with
      | negative => cases hy
      | positive => apply onSide_div (s := .positive) (t := .positive) _ hx

theorem not_zero_lt_zero_sub {x : Float32} (hx : ¬ x < 0.0) :
  ¬ 0.0 < 0.0 - x
  := by
  rw [not_lt_zero_iff] at hx
  rw [not_zero_lt_iff]
  apply onSide_unpack_pack
  apply onSide_zero_sub _ hx

theorem not_zero_lt_neg {x : Float32} (hx : ¬ x < 0.0) :
  ¬ 0.0 < -x
  := by
  rw [not_lt_zero_iff] at hx
  rw [not_zero_lt_iff]
  apply onSide_unpack_pack
  apply onSide_neg hx

/-- Small numbers are converted by a multiplication with one, the others digit by
digit. -/
theorem not_ofNat_lt_zero (n : Nat) :
  ¬ Float32.ofNat n < 0.0
  := by
  rw [not_lt_zero_iff]
  simp only [Float32.ofNat, OfScientific.ofScientific, Float32.ofScientific]
  split
  · apply onSide_unpack_pack
    apply onSide_mul (s := .positive) (t := .positive)
    · apply onSide_unpack_pack
      apply onSide_ofNat
    · apply (not_lt_zero_iff (.ofBits 0x3F800000)).mp
      decide
  · apply onSide_unpack_pack
    apply onSide_ofScientific

end ModelCar
