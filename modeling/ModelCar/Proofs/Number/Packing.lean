import Mathlib
import ModelCar.Number.Binary

/-!
# Packed numbers

Packing and unpacking lose nothing: a packed number is packed again from what it unpacks
to, and a number that fits into a format unpacks to what was packed.
-/

namespace ModelCar

open Float.Model Float.Model.UnpackedFloat

variable {f : Format}

/-! ### Components -/

@[simp]
theorem sign_packComponents (s : Sign) (e : BitVec f.exponentBits)
    (m : BitVec f.mantissaBitsWithoutImplicit) :
  Sign.ofBitVec (unpackSign (packComponents f s e m)) = s
  := by
  have h : unpackSign (packComponents f s e m) = s.toBitVec := by
    ext i hi
    obtain rfl : i = 0 := by omega
    simp [unpackSign, packComponents, BitVec.getLsbD_append, BitVec.getElem_append]
  rw [h]
  cases s <;> rfl

theorem toBitVec_ofBitVec (b : BitVec 1) :
  (Sign.ofBitVec b).toBitVec = b
  := by
  revert b
  decide

/-- The components of a packed number give it back. -/
theorem packComponents_unpack (b : BitVec f.numBits) :
  packComponents f (Sign.ofBitVec (unpackSign b)) (unpackExponent b) (unpackMantissa b) = b
  := by
  rw [packComponents, toBitVec_ofBitVec]
  apply BitVec.eq_of_getLsbD_eq
  intro i hi
  have hsign (h : ¬ i < f.mantissaBitsWithoutImplicit + f.exponentBits) :
      i = f.mantissaBitsWithoutImplicit + f.exponentBits := by
    omega
  simp only [BitVec.getLsbD_append, unpackSign, unpackExponent, unpackMantissa,
    BitVec.getLsbD_cast, BitVec.getLsbD_extractLsb]
  by_cases hm : i < f.mantissaBitsWithoutImplicit
  · simp [hm]
    omega
  · by_cases he : i < f.mantissaBitsWithoutImplicit + f.exponentBits
    · have : i - f.mantissaBitsWithoutImplicit < f.exponentBits := by omega
      have : f.mantissaBitsWithoutImplicit + (i - f.mantissaBitsWithoutImplicit) = i := by omega
      simp [*]
      omega
    · obtain rfl := hsign he
      simp

theorem toNat_one_append {w : Nat} (v : BitVec w) :
  (1#1 ++ v).toNat = 2 ^ w + v.toNat
  := by
  rw [BitVec.toNat_append, ← Nat.shiftLeft_add_eq_or_of_lt v.isLt, Nat.shiftLeft_eq]
  simp

/-! ### Formats -/

/-- The exponent of the smallest numbers of a format. -/
theorem minExponent_eq (f : Format) :
  f.minExponent = 1 - (f.exponentBias : Int) - f.mantissaBitsWithoutImplicit
  := by
  have hp : 1 ≤ 2 ^ (f.exponentBits - 1) := Nat.one_le_two_pow
  simp only [Format.minExponent, Format.exponentBias, Format.mantissaBits]
  push_cast [Nat.cast_sub hp]
  ring

theorem two_pow_exponentBits (f : Format) :
  2 ^ f.exponentBits = 2 * f.exponentBias + 2
  := by
  have he := f.he
  have hp : 1 ≤ 2 ^ (f.exponentBits - 1) := Nat.one_le_two_pow
  have h : 2 ^ f.exponentBits = 2 * 2 ^ (f.exponentBits - 1) := by
    rw [← pow_succ', Nat.sub_add_cancel he]
  rw [h, Format.exponentBias]
  omega

theorem eq_neg_one_iff {w : Nat} (v : BitVec w) :
  v = -1#w ↔ v.toNat + 1 = 2 ^ w
  := by
  have hv := v.isLt
  rw [← BitVec.toNat_inj, BitVec.neg_one_eq_allOnes, BitVec.toNat_allOnes]
  omega

theorem eq_zero_iff {w : Nat} (v : BitVec w) :
  v = 0#w ↔ v.toNat = 0
  := by
  rw [← BitVec.toNat_inj, BitVec.toNat_zero]

/-- A mantissa below the implicit digit. -/
theorem log2_of_lt {m : Nat} (h : m < 2 ^ f.mantissaBitsWithoutImplicit) :
  m.log2 + 1 ≠ f.mantissaBits
  := by
  have hf := f.hm
  simp only [Format.mantissaBits]
  by_cases hz : m = 0
  · subst hz
    rw [Nat.log2_zero]
    omega
  · have := (Nat.log2_lt hz).mpr h
    omega

/-- A mantissa with the implicit digit. -/
theorem log2_of_le {m : Nat} (h : 2 ^ f.mantissaBitsWithoutImplicit ≤ m)
    (hlt : m < 2 ^ f.mantissaBits) :
  m.log2 + 1 = f.mantissaBits
  := by
  have hz : m ≠ 0 := (Nat.two_pow_pos _).trans_le h |>.ne'
  have hlo := (Nat.le_log2 hz).mpr h
  have hhi := (Nat.log2_lt hz).mpr hlt
  simp only [Format.mantissaBits] at *
  omega

theorem zero_ne_neg_one (f : Format) :
  (0#f.exponentBits) ≠ -1#_
  := by
  have := two_pow_exponentBits f
  rw [ne_eq, eq_neg_one_iff, BitVec.toNat_zero]
  omega

/-! ### Kinds of packed numbers -/

section
variable (s : Sign) {x : BitVec f.exponentBits} {v : BitVec f.mantissaBitsWithoutImplicit}

theorem unpack_packedInfinity (f : Format) (s : Sign) :
  UnpackedFloat.unpack f (packedInfinity f s) = .infinity s
  := by
  simp [packedInfinity, UnpackedFloat.unpack]

theorem unpack_packedZero (f : Format) (s : Sign) :
  UnpackedFloat.unpack f (packedZero f s) = .zero s
  := by
  have he := zero_ne_neg_one f
  simp [packedZero, UnpackedFloat.unpack, he]

theorem unpack_special (hv : v ≠ 0#_) :
  UnpackedFloat.unpack f (packComponents f s (-1#_) v) = .notANumber
  := by
  simp [UnpackedFloat.unpack, hv]

/-- The smallest numbers have no implicit digit. -/
theorem unpack_subnormal (hv : v ≠ 0#_) (hpos : 0 < v.toNat) :
  UnpackedFloat.unpack f (packComponents f s 0#_ v) = .finite s v.toNat f.minExponent hpos
  := by
  simp only [UnpackedFloat.unpack, sign_packComponents, unpackExponent_packComponents,
    unpackMantissa_packComponents]
  rw [if_neg (zero_ne_neg_one f), if_pos trivial, dif_neg hv]
  congr 1
  rw [minExponent_eq, BitVec.toNat_zero]
  omega

/-- The other finite numbers have one. -/
theorem unpack_normal (hzero : x ≠ 0#_) (hone : x ≠ -1#_)
    (hpos : 0 < 2 ^ f.mantissaBitsWithoutImplicit + v.toNat) :
  UnpackedFloat.unpack f (packComponents f s x v)
    = .finite s (2 ^ f.mantissaBitsWithoutImplicit + v.toNat)
        (x.toNat - (f.exponentBias + f.mantissaBitsWithoutImplicit)) hpos
  := by
  simp only [UnpackedFloat.unpack, sign_packComponents, unpackExponent_packComponents,
    unpackMantissa_packComponents]
  rw [if_neg hone, if_neg hzero]
  congr 1
  exact toNat_one_append v

theorem pack_subnormal (hf : 1 < f.exponentBits) {m : Nat}
    (hlow : m < 2 ^ f.mantissaBitsWithoutImplicit) (hpos : 0 < m) :
  UnpackedFloat.pack f (.finite s m f.minExponent hpos) = packComponents f s 0#_ (.ofNat _ m)
  := by
  have htwo : 2 ^ 2 ≤ 2 ^ f.exponentBits := Nat.pow_le_pow_right Nat.two_pos hf
  have hbiased : (f.minExponent + f.exponentBias + f.mantissaBitsWithoutImplicit).toNat = 1 := by
    rw [minExponent_eq]
    omega
  simp only [UnpackedFloat.pack, hbiased]
  rw [if_neg (by omega), if_neg (log2_of_lt hlow)]

theorem pack_normal {m : Nat} {e : Int} (hfull : 2 ^ f.mantissaBitsWithoutImplicit ≤ m)
    (hlt : m < 2 ^ f.mantissaBits)
    (he : e ≤ (f.exponentBias : Int) - f.mantissaBitsWithoutImplicit) (hpos : 0 < m) :
  UnpackedFloat.pack f (.finite s m e hpos)
    = packComponents f s
        (.ofNat _ (e + f.exponentBias + f.mantissaBitsWithoutImplicit).toNat) (.ofNat _ m)
  := by
  have htwo := two_pow_exponentBits f
  simp only [UnpackedFloat.pack]
  rw [if_neg (by omega), if_pos (log2_of_le hfull hlt)]

end

/-- Every packed number is of one of these kinds. -/
theorem packed_cases (b : BitVec f.numBits) :
  ∃ s, b = packedInfinity f s ∨ b = packedZero f s ∨
    (∃ v ≠ 0#_, b = packComponents f s (-1#_) v) ∨
    (∃ v ≠ 0#_, b = packComponents f s 0#_ v) ∨
    ∃ x v, x ≠ 0#_ ∧ x ≠ -1#_ ∧ b = packComponents f s x v
  := by
  have hb := packComponents_unpack b
  generalize Sign.ofBitVec (unpackSign b) = s at hb
  generalize unpackExponent b = x at hb
  generalize unpackMantissa b = v at hb
  use s
  by_cases hone : x = -1#_
  · subst hone
    by_cases hv : v = 0#_
    · subst hv
      exact .inl hb.symm
    · exact .inr (.inr (.inl ⟨v, hv, hb.symm⟩))
  · by_cases hzero : x = 0#_
    · subst hzero
      by_cases hv : v = 0#_
      · subst hv
        exact .inr (.inl hb.symm)
      · exact .inr (.inr (.inr (.inl ⟨v, hv, hb.symm⟩)))
    · exact .inr (.inr (.inr (.inr ⟨x, v, hzero, hone, hb.symm⟩)))

theorem toNat_pos_of_ne {w : Nat} {v : BitVec w} (h : v ≠ 0#_) :
  0 < v.toNat
  := Nat.pos_of_ne_zero (mt (eq_zero_iff v).mpr h)

/-! ### Packing what was unpacked -/

/-- A packed number is packed again from what it unpacks to. -/
theorem pack_unpack (hf : 1 < f.exponentBits) {b : BitVec f.numBits} (h : f.Valid b) :
  UnpackedFloat.pack f (UnpackedFloat.unpack f b) = b
  := by
  obtain ⟨s, rfl | rfl | ⟨v, hv, rfl⟩ | ⟨v, hv, rfl⟩ | ⟨x, v, hzero, hone, rfl⟩⟩ :=
    packed_cases b
  · rw [unpack_packedInfinity, UnpackedFloat.pack]
  · rw [unpack_packedZero, UnpackedFloat.pack]
  · rw [unpack_special s hv, UnpackedFloat.pack]
    apply (h.eq_packedNaN _ _).symm
    · exact unpackExponent_packComponents
    · rwa [unpackMantissa_packComponents]
  · rw [unpack_subnormal s hv (toNat_pos_of_ne hv), pack_subnormal s hf v.isLt,
      BitVec.ofNat_toNat, BitVec.setWidth_eq]
  · have hv := v.isLt
    have hx := x.isLt
    have htwo := two_pow_exponentBits f
    have hmax : x.toNat + 1 ≠ 2 ^ f.exponentBits := mt (eq_neg_one_iff x).mpr hone
    have hbiased : ((x.toNat : Int) - (f.exponentBias + f.mantissaBitsWithoutImplicit)
        + f.exponentBias + f.mantissaBitsWithoutImplicit).toNat = x.toNat := by
      omega
    have hmant : BitVec.ofNat f.mantissaBitsWithoutImplicit
        (2 ^ f.mantissaBitsWithoutImplicit + v.toNat) = v := by
      rw [← BitVec.toNat_inj, BitVec.toNat_ofNat, Nat.add_mod_left, Nat.mod_eq_of_lt hv]
    have hlt : 2 ^ f.mantissaBitsWithoutImplicit + v.toNat < 2 ^ f.mantissaBits := by
      rw [Format.mantissaBits, Nat.pow_add]
      omega
    rw [unpack_normal s hzero hone (by positivity),
      pack_normal s (Nat.le_add_right _ _) hlt (by omega), hbiased, hmant, BitVec.ofNat_toNat,
      BitVec.setWidth_eq]

/-! ### Unpacking what was packed -/

/-- The mantissa of an unpacked number has no more digits than fit into a format, and fewer
only with the smallest exponent. -/
def Canonical (f : Format) : UnpackedFloat → Prop
  | .finite _ m e _ =>
    m < 2 ^ f.mantissaBits ∧ f.minExponent ≤ e ∧
      (2 ^ f.mantissaBitsWithoutImplicit ≤ m ∨ e = f.minExponent)
  | _ => True

/-- The exponent of an unpacked number is not too large for a format. -/
def InRange (f : Format) : UnpackedFloat → Prop
  | .finite _ _ e _ => e ≤ (f.exponentBias : Int) - f.mantissaBitsWithoutImplicit
  | _ => True

theorem unpack_packedNaN (f : Format) :
  UnpackedFloat.unpack f (packedNaN f) = .notANumber
  := by
  have hf := f.hm
  have hmant :
      (1#f.mantissaBitsWithoutImplicit <<< (f.mantissaBitsWithoutImplicit - 1)) ≠ 0#_ := by
    rw [ne_eq, eq_zero_iff, BitVec.toNat_shiftLeft, BitVec.toNat_ofNat,
      Nat.mod_eq_of_lt (Nat.one_lt_two_pow hf.ne'), Nat.one_shiftLeft, Nat.mod_eq_of_lt]
    · positivity
    · apply Nat.pow_lt_pow_right <;> omega
  exact unpack_special .positive hmant

/-- A number that fits into a format unpacks to what was packed. -/
theorem unpack_pack (hf : 1 < f.exponentBits) {u : UnpackedFloat} (hc : Canonical f u)
    (hr : InRange f u) :
  UnpackedFloat.unpack f (UnpackedFloat.pack f u) = u
  := by
  cases u with
  | notANumber => exact unpack_packedNaN f
  | infinity s => exact unpack_packedInfinity f s
  | zero s => exact unpack_packedZero f s
  | finite s m e hm =>
      obtain ⟨hlt, hmin, hnormal⟩ := hc
      have he : e ≤ (f.exponentBias : Int) - f.mantissaBitsWithoutImplicit := hr
      by_cases hfull : 2 ^ f.mantissaBitsWithoutImplicit ≤ m
      · have htwo := two_pow_exponentBits f
        rw [minExponent_eq] at hmin
        have hexp : (BitVec.ofNat f.exponentBits
            (e + f.exponentBias + f.mantissaBitsWithoutImplicit).toNat).toNat
            = (e + f.exponentBias + f.mantissaBitsWithoutImplicit).toNat :=
          Nat.mod_eq_of_lt (by omega)
        have hmant : 2 ^ f.mantissaBitsWithoutImplicit
            + (BitVec.ofNat f.mantissaBitsWithoutImplicit m).toNat = m := by
          rw [Format.mantissaBits, Nat.pow_add] at hlt
          rw [BitVec.toNat_ofNat, Nat.mod_eq_sub_mod hfull, Nat.mod_eq_of_lt (by omega)]
          omega
        rw [pack_normal s hfull hlt he, unpack_normal s _ _ (by positivity)]
        · congr 1
          rw [hexp]
          omega
        · rw [ne_eq, eq_zero_iff, hexp]
          omega
        · rw [ne_eq, eq_neg_one_iff, hexp]
          omega
      · obtain rfl := hnormal.resolve_left hfull
        have hlow := Nat.lt_of_not_le hfull
        have hmant : (BitVec.ofNat f.mantissaBitsWithoutImplicit m).toNat = m :=
          Nat.mod_eq_of_lt hlow
        have hpos : 0 < (BitVec.ofNat f.mantissaBitsWithoutImplicit m).toNat := by
          rwa [hmant]
        rw [pack_subnormal s hf hlow, unpack_subnormal s _ hpos]
        · congr 1
        · rw [ne_eq, eq_zero_iff]
          exact hpos.ne'

/-- What is unpacked fits into the format. -/
theorem fits_unpack (hf : 1 < f.exponentBits) (b : BitVec f.numBits) :
  Canonical f (UnpackedFloat.unpack f b) ∧ InRange f (UnpackedFloat.unpack f b)
  := by
  have hpow : 2 ^ 2 ≤ 2 ^ f.exponentBits := Nat.pow_le_pow_right Nat.two_pos hf
  have htwo := two_pow_exponentBits f
  obtain ⟨s, rfl | rfl | ⟨v, hv, rfl⟩ | ⟨v, hv, rfl⟩ | ⟨x, v, hzero, hone, rfl⟩⟩ :=
    packed_cases b
  · rw [unpack_packedInfinity]
    exact ⟨trivial, trivial⟩
  · rw [unpack_packedZero]
    exact ⟨trivial, trivial⟩
  · rw [unpack_special s hv]
    exact ⟨trivial, trivial⟩
  · have hlt := v.isLt
    rw [unpack_subnormal s hv (toNat_pos_of_ne hv)]
    refine ⟨⟨?_, le_rfl, .inr rfl⟩, ?_⟩
    · rw [Format.mantissaBits, Nat.pow_add]
      omega
    · rw [InRange, minExponent_eq]
      omega
  · have hlt := v.isLt
    have hx := x.isLt
    have hpos := toNat_pos_of_ne hzero
    have hmax : x.toNat + 1 ≠ 2 ^ f.exponentBits := mt (eq_neg_one_iff x).mpr hone
    rw [unpack_normal s hzero hone (by positivity)]
    refine ⟨⟨?_, ?_, .inl (Nat.le_add_right _ _)⟩, ?_⟩
    · rw [Format.mantissaBits, Nat.pow_add]
      omega
    · rw [minExponent_eq]
      omega
    · rw [InRange]
      omega

/-! ### Single and double precision -/

theorem pack_unpack_single (x : Float32.Model) :
  Float32.Model.pack x.unpack = x
  := by
  obtain ⟨bits, h⟩ := x
  have hbits := congrArg UInt32.ofBitVec (pack_unpack (f := .binary32) (by decide) h)
  simp only [Float32.Model.pack, Float32.Model.unpack]
  congr

/-- A number in single precision is made of its bits. -/
theorem ofBits_toBits (x : Float32) :
  Float32.ofBits x.toBits = x
  := by
  obtain ⟨m⟩ := x
  exact congrArg Float32.ofModel (pack_unpack_single m)

end ModelCar
