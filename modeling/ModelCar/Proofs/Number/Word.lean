import Mathlib
import ModelCar.Link.Frame
import ModelCar.Record.Bytes

/-!
# Words and their bytes

A word is put together from its bytes as it was, in frames and in records.
-/

namespace ModelCar

/-- Bits that do not overlap add up. -/
theorem or_shiftLeft {a k : Nat} (h : a < 2 ^ k) (b : Nat) :
  a ||| b <<< k = a + b * 2 ^ k
  := by rw [Nat.or_comm, ← Nat.shiftLeft_add_eq_or_of_lt h, Nat.shiftLeft_eq, Nat.add_comm]

/-- A byte moved up within a word. -/
theorem shiftLeft_mod {b k n : Nat} (hb : b < 2 ^ 8) (hk : k + 8 ≤ n) :
  b <<< k % 2 ^ n = b <<< k
  := by
  apply Nat.mod_eq_of_lt
  calc b <<< k = b * 2 ^ k := Nat.shiftLeft_eq b k
    _ < 2 ^ 8 * 2 ^ k := Nat.mul_lt_mul_of_pos_right hb (Nat.two_pow_pos k)
    _ = 2 ^ (k + 8) := by rw [← pow_add, Nat.add_comm]
    _ ≤ 2 ^ n := Nat.pow_le_pow_right Nat.two_pos hk

@[simp]
theorem Link.word16_bytes (n : UInt16) :
  Link.word16 n.toUInt8 (n >>> 8).toUInt8 = n
  := by
  have hn := n.toNat_lt
  rw [← UInt16.toNat_inj]
  simp only [Link.word16, UInt16.toNat_or, UInt16.toNat_shiftLeft, UInt8.toNat_toUInt16,
    UInt16.toNat_toUInt8, UInt16.toNat_shiftRight, UInt16.reduceToNat, Nat.reduceMod,
    Nat.shiftRight_eq_div_pow]
  rw [shiftLeft_mod (Nat.mod_lt _ (by decide)) (by decide),
    or_shiftLeft (Nat.mod_lt _ (by decide))]
  omega

theorem Link.toNat_word16 (low high : UInt8) :
  (Link.word16 low high).toNat = low.toNat + high.toNat * 2 ^ 8
  := by
  simp only [Link.word16, UInt16.toNat_or, UInt16.toNat_shiftLeft, UInt8.toNat_toUInt16,
    UInt16.reduceToNat, Nat.reduceMod]
  rw [shiftLeft_mod high.toNat_lt (by decide), or_shiftLeft low.toNat_lt]

theorem Link.word16_inj {low high low' high' : UInt8} :
  Link.word16 low high = Link.word16 low' high' ↔ low = low' ∧ high = high'
  := by
  have := low.toNat_lt
  have := low'.toNat_lt
  rw [← UInt16.toNat_inj, ← UInt8.toNat_inj, ← UInt8.toNat_inj, toNat_word16, toNat_word16]
  omega

/-- The bytes of a word that is put together from two bytes are these bytes. -/
theorem Link.bytes16_word16 (low high : UInt8) :
  Link.bytes16 (Link.word16 low high) = [low, high]
  := by
  have hbytes := Link.word16_bytes (Link.word16 low high)
  obtain ⟨hlow, hhigh⟩ := Link.word16_inj.mp hbytes
  rw [Link.bytes16, hlow, hhigh]

@[simp]
theorem Record.word_bytes (n : UInt32) :
  Record.word n.toUInt8 (n >>> 8).toUInt8 (n >>> 16).toUInt8 (n >>> 24).toUInt8 = n
  := by
  have hn := n.toNat_lt
  rw [← UInt32.toNat_inj]
  simp only [Record.word, UInt32.toNat_or, UInt32.toNat_shiftLeft, UInt8.toNat_toUInt32,
    UInt32.toNat_toUInt8, UInt32.toNat_shiftRight, UInt32.reduceToNat, Nat.reduceMod,
    Nat.shiftRight_eq_div_pow]
  rw [shiftLeft_mod (Nat.mod_lt _ (by decide)) (by decide),
    shiftLeft_mod (Nat.mod_lt _ (by decide)) (by decide),
    shiftLeft_mod (Nat.mod_lt _ (by decide)) (by decide),
    or_shiftLeft (Nat.mod_lt _ (by decide)), or_shiftLeft (k := 16) (by omega),
    or_shiftLeft (k := 24) (by omega)]
  omega

end ModelCar
