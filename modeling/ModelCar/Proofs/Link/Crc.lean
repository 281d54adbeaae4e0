import ModelCar.Proofs.Link.Reading
import ModelCar.Proofs.Number.Word

/-!
# The check word as a linear map

The division behind the check word is linear over bitwise addition, so what a corruption
does to the check word depends on the flipped bits alone.  No step of the division maps a
word other than zero to zero, and every step keeps the parity of the word: that rules out
one or three flipped bits.  Two flipped bits need a word that comes back to itself, which
takes longer than any frame; flips within two adjacent bytes are a word of their own.
-/

namespace ModelCar.Link

/-! ### One step -/

theorem low_bit_iff (w : UInt16) :
  w &&& 1 = 1 ↔ w.toBitVec[0]
  := by
  rw [← UInt16.toBitVec_inj, UInt16.toBitVec_and]
  rw [show UInt16.toBitVec 1 = 1#16 from rfl, BitVec.and_one_eq_setWidth_ofBool_getLsbD]
  cases h : w.toBitVec.getLsbD 0 <;> simp_all

/-- A step moves the word down and adds the polynomial if a one falls out. -/
theorem crcShift_eq (w : UInt16) :
  crcShift w = (w >>> 1) ^^^ (if w.toBitVec[0] then 0xA001 else 0)
  := by
  simp only [crcShift, low_bit_iff]
  split
  · rfl
  · rw [UInt16.xor_zero]

theorem crcShift_xor (w v : UInt16) :
  crcShift (w ^^^ v) = crcShift w ^^^ crcShift v
  := by
  have hbit : ∀ a b : Bool, (if (a ^^ b) then (0xA001 : UInt16) else 0)
      = (if a then 0xA001 else 0) ^^^ (if b then 0xA001 else 0) := by decide
  rw [crcShift_eq, crcShift_eq, crcShift_eq, UInt16.toBitVec_xor, BitVec.getElem_xor, hbit,
    UInt16.shiftRight_xor]
  ac_rfl

/-- The parity of the number of ones in a word. -/
def parity (w : UInt16) : Bool :=
  (List.range 16).foldr (fun i p => w.toBitVec.getLsbD i ^^ p) false

theorem parity_xor (w v : UInt16) :
  parity (w ^^^ v) = (parity w ^^ parity v)
  := by
  unfold parity
  induction List.range 16 with
  | nil => rfl
  | cons i is ih =>
      rw [List.foldr_cons, List.foldr_cons, List.foldr_cons, ih, UInt16.toBitVec_xor,
        BitVec.getLsbD_xor]
      simp only [Bool.xor_assoc, Bool.xor_left_comm]

theorem parity_shiftRight (w : UInt16) :
  parity (w >>> 1) = (w.toBitVec[0] ^^ parity w)
  := by
  simp [parity, List.range, List.range.loop]

/-- A step keeps the parity, since the polynomial has an odd number of ones: adding it makes
up for the one that falls out. -/
theorem parity_crcShift (w : UInt16) :
  parity (crcShift w) = parity w
  := by
  have hpoly : ∀ b : Bool, parity (if b then 0xA001 else 0) = b := by decide
  rw [crcShift_eq, parity_xor, parity_shiftRight, hpoly, Bool.xor_comm, ← Bool.xor_assoc,
    Bool.xor_self, Bool.false_xor]

/-- The highest bit of a word after a step is the one that fell out. -/
theorem high_bit_crcShift (w : UInt16) :
  (crcShift w).toBitVec[15] = w.toBitVec[0]
  := by
  rw [crcShift_eq]
  cases h : w.toBitVec[0] <;> simp

/-- Only zero becomes zero. -/
theorem crcShift_eq_zero {w : UInt16} (h : crcShift w = 0) :
  w = 0
  := by
  have hlow : w.toBitVec[0] = false := by
    rw [← high_bit_crcShift, h]
    rfl
  have hhalf : w.toNat / 2 = 0 := by
    rw [crcShift_eq, hlow] at h
    rw [← Nat.shiftRight_one]
    simpa using congrArg UInt16.toNat h
  have heven : w.toNat % 2 = 0 := by
    simpa [BitVec.getElem_eq_testBit_toNat] using hlow
  rw [← UInt16.toNat_inj, UInt16.toNat_zero]
  omega

/-! ### Many steps -/

/-- A number of steps. -/
def shifts (n : Nat) (w : UInt16) : UInt16 :=
  Nat.repeat crcShift n w

theorem shifts_succ (n : Nat) (w : UInt16) :
  shifts (n + 1) w = crcShift (shifts n w)
  := rfl

theorem shifts_xor (n : Nat) (w v : UInt16) :
  shifts n (w ^^^ v) = shifts n w ^^^ shifts n v
  := by
  induction n with
  | zero => rfl
  | succ n ih => rw [shifts_succ, shifts_succ, shifts_succ, ih, crcShift_xor]

@[simp]
theorem shifts_zero_right (n : Nat) :
  shifts n 0 = 0
  := by
  induction n with
  | zero => rfl
  | succ n ih => rw [shifts_succ, ih]; rfl

@[simp]
theorem shifts_eq_zero_iff {n : Nat} {w : UInt16} :
  shifts n w = 0 ↔ w = 0
  := by
  constructor
  · intro h
    induction n with
    | zero => exact h
    | succ n ih => exact ih (crcShift_eq_zero h)
  · rintro rfl
    exact shifts_zero_right n

@[simp]
theorem shifts_inj {n : Nat} {w v : UInt16} :
  shifts n w = shifts n v ↔ w = v
  := by rw [← UInt16.xor_eq_zero_iff, ← shifts_xor, shifts_eq_zero_iff, UInt16.xor_eq_zero_iff]

theorem shifts_add (n k : Nat) (w : UInt16) :
  shifts (n + k) w = shifts n (shifts k w)
  := by
  induction n with
  | zero => rw [Nat.zero_add]; rfl
  | succ n ih => rw [Nat.add_right_comm, shifts_succ, ih, shifts_succ]

/-! ### Bytes -/

theorem crcByte_eq (w : UInt16) (byte : UInt8) :
  crcByte w byte = shifts 8 (w ^^^ byte.toUInt16)
  := rfl

theorem crcByte_xor (w v : UInt16) (a b : UInt8) :
  crcByte (w ^^^ v) (a ^^^ b) = crcByte w a ^^^ crcByte v b
  := by
  rw [crcByte_eq, crcByte_eq, crcByte_eq, ← shifts_xor, UInt8.toUInt16_xor]
  congr 1
  ac_rfl

theorem word16_eq_xor (low high : UInt8) :
  word16 low high = low.toUInt16 ^^^ (high.toUInt16 <<< 8)
  := by
  rw [← UInt16.toBitVec_inj]
  ext i hi
  by_cases h : i < 8
  · simp [word16, h]
  · have hlow : low.toBitVec.getLsbD i = false := BitVec.getLsbD_of_ge _ _ (Nat.le_of_not_lt h)
    simp [word16, h, hlow]

theorem forall_byte {P : UInt8 → Prop} (h : ∀ n < 256, P (.ofNat n)) (byte : UInt8) :
  P byte
  := by
  have hbyte := h byte.toNat byte.toNat_lt
  rwa [UInt8.ofNat_toNat] at hbyte

/-- A byte in the upper half of a word moves down unchanged. -/
theorem shifts_high (high : UInt8) :
  shifts 8 (high.toUInt16 <<< 8) = high.toUInt16
  := by
  revert high
  apply forall_byte
  decide +kernel

/-- Two bytes are divided as the word that they make. -/
theorem crcByte_crcByte (w : UInt16) (low high : UInt8) :
  crcByte (crcByte w low) high = shifts 16 (w ^^^ word16 low high)
  := by
  calc crcByte (crcByte w low) high
    _ = shifts 8 (shifts 8 (w ^^^ low.toUInt16) ^^^ high.toUInt16) := rfl
    _ = shifts 8 (shifts 8 (w ^^^ low.toUInt16) ^^^ shifts 8 (high.toUInt16 <<< 8)) := by
        rw [shifts_high]
    _ = shifts 16 (w ^^^ low.toUInt16 ^^^ high.toUInt16 <<< 8) := by
        rw [← shifts_xor, ← shifts_add]
    _ = shifts 16 (w ^^^ word16 low high) := by rw [word16_eq_xor, UInt16.xor_assoc]

/-- The check word at the end of a frame makes the whole division come out even. -/
theorem crc16_concat_eq_zero (bytes : List UInt8) (low high : UInt8) :
  crc16 (bytes ++ [low, high]) = 0 ↔ crc16 bytes = word16 low high
  := by
  have hcrc : crc16 (bytes ++ [low, high]) = shifts 16 (crc16 bytes ^^^ word16 low high) := by
    rw [crc16, List.foldl_append]
    exact crcByte_crcByte _ low high
  rw [hcrc, shifts_eq_zero_iff, UInt16.xor_eq_zero_iff]

theorem crcByte_inj {w v : UInt16} {a b : UInt8} :
  crcByte w a = crcByte v b ↔ w ^^^ a.toUInt16 = v ^^^ b.toUInt16
  := shifts_inj

theorem foldl_crcByte_inj {bytes : List UInt8} {w v : UInt16} :
  bytes.foldl crcByte w = bytes.foldl crcByte v ↔ w = v
  := by
  induction bytes generalizing w v with
  | nil => rfl
  | cons byte bytes ih =>
      rw [List.foldl_cons, List.foldl_cons, ih, crcByte_inj, UInt16.xor_left_inj]

/-- Bytes that differ within two adjacent places at most are told apart. -/
theorem eq_of_foldl_eq {xs ys : List UInt8} {w : UInt16} (hlen : xs.length = ys.length) {i : Nat}
    (htake : xs.take i = ys.take i) (hdrop : xs.drop (i + 2) = ys.drop (i + 2))
    (h : xs.foldl crcByte w = ys.foldl crcByte w) :
  xs = ys
  := by
  induction i generalizing xs ys w with
  | zero =>
      match xs, ys, hlen with
      | [], [], _ => rfl
      | [a], [b], _ =>
          have hbyte : crcByte w a = crcByte w b := h
          rw [crcByte_inj, UInt16.xor_right_inj, UInt8.toUInt16_inj] at hbyte
          rw [hbyte]
      | a :: b :: xs, c :: d :: ys, _ =>
          obtain rfl : xs = ys := hdrop
          rw [List.foldl_cons, List.foldl_cons, List.foldl_cons, List.foldl_cons,
            foldl_crcByte_inj, crcByte_crcByte, crcByte_crcByte, shifts_inj,
            UInt16.xor_right_inj, word16_inj] at h
          rw [h.1, h.2]
  | succ i ih =>
      match xs, ys, hlen with
      | [], [], _ => rfl
      | a :: xs, b :: ys, hlen =>
          rw [List.take_succ_cons, List.take_succ_cons] at htake
          obtain ⟨rfl, htail⟩ := List.cons.inj htake
          rw [ih (Nat.succ.inj hlen) htail hdrop h]

/-! ### Bits -/

/-- The bits of a byte, the low one first. -/
def bitsOf (byte : UInt8) : List Bool :=
  (List.range 8).map byte.toBitVec.getLsbD

/-- One bit of the division. -/
def crcBit (w : UInt16) (bit : Bool) : UInt16 :=
  crcShift (w ^^^ if bit then 1 else 0)

theorem foldl_crcBit_xor (bits : List Bool) (w v : UInt16) :
  bits.foldl crcBit (w ^^^ v) = shifts bits.length w ^^^ bits.foldl crcBit v
  := by
  induction bits generalizing w v with
  | nil => rfl
  | cons bit bits ih =>
      have hbit : crcBit (w ^^^ v) bit = crcShift w ^^^ crcBit v bit := by
        rw [crcBit, crcBit, UInt16.xor_assoc, crcShift_xor]
      have hshift : shifts bits.length (crcShift w) = shifts (bits.length + 1) w :=
        (shifts_add bits.length 1 w).symm
      rw [List.foldl_cons, List.foldl_cons, hbit, ih, hshift, List.length_cons]

/-- A byte is divided bit by bit. -/
theorem crcByte_eq_foldl (w : UInt16) (byte : UInt8) :
  crcByte w byte = (bitsOf byte).foldl crcBit w
  := by
  have hzero : shifts 8 byte.toUInt16 = (bitsOf byte).foldl crcBit 0 := by
    revert byte
    apply forall_byte
    decide +kernel
  calc crcByte w byte
    _ = shifts 8 w ^^^ shifts 8 byte.toUInt16 := shifts_xor 8 w byte.toUInt16
    _ = shifts (bitsOf byte).length w ^^^ (bitsOf byte).foldl crcBit 0 := by rw [hzero]; rfl
    _ = (bitsOf byte).foldl crcBit w := by rw [← foldl_crcBit_xor, UInt16.xor_zero]

theorem foldl_crcByte_eq (w : UInt16) (bytes : List UInt8) :
  bytes.foldl crcByte w = (bytes.flatMap bitsOf).foldl crcBit w
  := by
  simp only [List.foldl_flatMap, ← crcByte_eq_foldl]

/-! ### A few ones -/

theorem parity_crcBit (w : UInt16) (bit : Bool) :
  parity (crcBit w bit) = (parity w ^^ bit)
  := by
  have hbit : parity (if bit then 1 else 0) = bit := by
    cases bit <;> decide
  rw [crcBit, parity_crcShift, parity_xor, hbit]

theorem parity_foldl (bits : List Bool) (w : UInt16) :
  parity (bits.foldl crcBit w) = (parity w ^^ decide (bits.count true % 2 = 1))
  := by
  induction bits generalizing w with
  | nil => simp
  | cons bit bits ih =>
      rw [List.foldl_cons, ih, parity_crcBit]
      cases bit with
      | false => simp
      | true =>
          have hodd : decide ((bits.count true + 1) % 2 = 1)
              = !decide (bits.count true % 2 = 1) := by
            rw [← decide_not, decide_eq_decide]
            omega
          rw [List.count_cons_self, hodd, Bool.xor_assoc, Bool.true_xor]

theorem crcBit_ne_zero {w : UInt16} {bit : Bool} (h : w ≠ if bit then 1 else 0) :
  crcBit w bit ≠ 0
  := fun hzero => h (UInt16.xor_eq_zero_iff.mp (crcShift_eq_zero hzero))

/-- Bits without a one leave no word zero, if it was not zero before. -/
theorem foldl_ne_zero_of_none {bits : List Bool} (h : bits.count true = 0) {w : UInt16}
    (hw : w ≠ 0) :
  bits.foldl crcBit w ≠ 0
  := by
  induction bits generalizing w with
  | nil => exact hw
  | cons bit bits ih =>
      cases bit with
      | true => simp at h
      | false => exact ih (by simpa using h) (crcBit_ne_zero hw)

/-- The first `n` words of those that the division passes through from a word on are not
one. -/
def avoidsOne : Nat → UInt16 → Bool
  | 0, _ => true
  | n + 1, w => w ≠ 1 && avoidsOne n (crcShift w)

/-- Bits with a single one leave no word zero, if the word does not become one in time. -/
theorem foldl_ne_zero_of_one {bits : List Bool} (h : bits.count true = 1) {n : Nat}
    (hlen : bits.length ≤ n) {w : UInt16} (hw : avoidsOne n w) :
  bits.foldl crcBit w ≠ 0
  := by
  induction bits generalizing n w with
  | nil => simp at h
  | cons bit bits ih =>
      obtain ⟨n, rfl⟩ := Nat.exists_eq_succ_of_ne_zero (Nat.ne_zero_of_lt hlen)
      rw [avoidsOne, Bool.and_eq_true, decide_eq_true_eq] at hw
      cases bit with
      | true =>
          rw [List.foldl_cons]
          exact foldl_ne_zero_of_none (by simpa using h) (crcBit_ne_zero hw.1)
      | false =>
          rw [List.foldl_cons, crcBit, if_neg Bool.false_ne_true, UInt16.xor_zero]
          exact ih (by simpa using h) (Nat.le_of_succ_le_succ hlen) hw.2

/-- Two ones in the length of a frame do not cancel out: the word that the first one leaves
does not become one in time. -/
theorem foldl_ne_zero_of_two {bits : List Bool} (h : bits.count true = 2)
    (hlen : bits.length ≤ 8 * longestFrame) :
  bits.foldl crcBit 0 ≠ 0
  := by
  have havoids : avoidsOne (8 * longestFrame) (crcShift 1) := by decide +kernel
  induction bits with
  | nil => simp at h
  | cons bit bits ih =>
      cases bit with
      | true => exact foldl_ne_zero_of_one (by simpa using h) (Nat.le_of_succ_le hlen) havoids
      | false => exact ih (by simpa using h) (Nat.le_of_succ_le hlen)

/-- One to three ones in the length of a frame leave a word other than zero. -/
theorem foldl_ne_zero {bits : List Bool} (hpos : 1 ≤ bits.count true)
    (hle : bits.count true ≤ 3) (hlen : bits.length ≤ 8 * longestFrame) :
  bits.foldl crcBit 0 ≠ 0
  := by
  by_cases htwo : bits.count true = 2
  · exact foldl_ne_zero_of_two htwo hlen
  · have hodd : bits.count true % 2 = 1 := by omega
    intro hzero
    have hparity := parity_foldl bits 0
    rw [hzero] at hparity
    simp [hodd] at hparity

/-! ### Flipped bits -/

/-- The bytes whose ones are the bits at which two byte strings of the same length differ. -/
def difference (xs ys : List UInt8) : List UInt8 :=
  xs.zipWith (· ^^^ ·) ys

/-- The number of bits at which two byte strings of the same length differ. -/
def flips (xs ys : List UInt8) : Nat :=
  ((difference xs ys).flatMap bitsOf).count true

theorem flips_cons_self (byte : UInt8) (xs ys : List UInt8) :
  flips (byte :: xs) (byte :: ys) = flips xs ys
  := by
  have hdifference : difference (byte :: xs) (byte :: ys) = 0 :: difference xs ys := by
    rw [difference, List.zipWith_cons_cons, UInt8.xor_self]
    rfl
  have hzero : (bitsOf 0).count true = 0 := by decide
  rw [flips, hdifference, List.flatMap_cons, List.count_append, hzero, Nat.zero_add]
  rfl

/-- Bytes in which two byte strings agree at the beginning may be left out. -/
theorem flips_drop {xs ys : List UInt8} {n : Nat} (h : xs.take n = ys.take n) :
  flips (xs.drop n) (ys.drop n) = flips xs ys
  := by
  induction n generalizing xs ys with
  | zero => rfl
  | succ n ih =>
      match xs, ys with
      | [], [] => rfl
      | [], _ :: _ => cases h
      | _ :: _, [] => cases h
      | x :: xs, y :: ys =>
          rw [List.take_succ_cons, List.take_succ_cons] at h
          obtain ⟨rfl, htail⟩ := List.cons.inj h
          rw [flips_cons_self, ← ih htail]
          rfl

theorem foldl_difference {xs ys : List UInt8} (h : xs.length = ys.length) (w v : UInt16) :
  (difference xs ys).foldl crcByte (w ^^^ v) = xs.foldl crcByte w ^^^ ys.foldl crcByte v
  := by
  induction xs generalizing ys w v with
  | nil =>
      obtain rfl := List.length_eq_zero_iff.mp h.symm
      rfl
  | cons x xs ih =>
      match ys, h with
      | y :: ys, h =>
          have hxy : difference (x :: xs) (y :: ys) = (x ^^^ y) :: difference xs ys := rfl
          rw [hxy, List.foldl_cons, crcByte_xor, ih (Nat.succ.inj h)]
          rfl

/-- Byte strings that differ at one to three bits have different check words. -/
theorem crc16_ne_of_flips {xs ys : List UInt8} (h : xs.length = ys.length)
    (hlen : xs.length ≤ longestFrame) (hpos : 1 ≤ flips xs ys) (hle : flips xs ys ≤ 3) :
  crc16 xs ≠ crc16 ys
  := by
  rw [ne_eq, ← UInt16.xor_eq_zero_iff, crc16, crc16, ← foldl_difference h, UInt16.xor_self,
    foldl_crcByte_eq]
  apply foldl_ne_zero hpos hle
  have hbits : ∀ bytes : List UInt8, (bytes.flatMap bitsOf).length = 8 * bytes.length := by
    intro bytes
    simp [List.length_flatMap, bitsOf, Nat.mul_comm]
  rw [hbits, difference, List.length_zipWith, h, Nat.min_self, ← h]
  exact Nat.mul_le_mul_left 8 hlen

/-- Different byte strings that differ within two adjacent bytes have different check
words. -/
theorem crc16_ne_of_burst {xs ys : List UInt8} (h : xs.length = ys.length) (hne : xs ≠ ys)
    {i : Nat} (htake : xs.take i = ys.take i) (hdrop : xs.drop (i + 2) = ys.drop (i + 2)) :
  crc16 xs ≠ crc16 ys
  := fun hcrc => hne (eq_of_foldl_eq h htake hdrop hcrc)

end ModelCar.Link
