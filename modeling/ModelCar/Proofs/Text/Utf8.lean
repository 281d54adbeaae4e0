import Mathlib
import ModelCar.Text.Utf8

/-!
# Reading back what was written

`decode_encode`: a text is read back from its bytes as it was, without replacement
characters.  `keep n` is the longest beginning of a text that has at most `n` bytes.
-/

namespace ModelCar.Utf8

theorem toNat_byte {n : Nat} (h : n < 256) :
  (UInt8.ofNat n).toNat = n
  := UInt8.toNat_ofNat_of_lt' h

theorem not_byte_lt {n : Nat} (hlo : 0x80 ≤ n) (hhi : n < 256) :
  ¬ UInt8.ofNat n < 0x80
  := by
  rw [UInt8.lt_iff_toNat_lt, toNat_byte hhi, show (0x80 : UInt8).toNat = 0x80 from rfl]
  omega

/-! ### Followers -/

/-- The last `k` bytes of a character of more than `k` bytes, each with six bits of its
code point. -/
def tail : Nat → Nat → List UInt8
  | 0, _ => []
  | k + 1, n => tail k (n / 64) ++ [UInt8.ofNat (n % 64 + 0x80)]

@[simp]
theorem length_tail (k n : Nat) :
  (tail k n).length = k
  := by
  induction k generalizing n with
  | zero => rfl
  | succ k ih => simp [tail, ih]

/-- The first byte has the bits above those of the followers. -/
theorem foldl_tail (k n : Nat) :
  (tail k n).foldl (fun n b => 64 * n + b.toNat % 64) (n / 64 ^ k) = n
  := by
  induction k generalizing n with
  | zero => exact Nat.div_one n
  | succ k ih =>
      have hdiv : n / 64 ^ (k + 1) = n / 64 / 64 ^ k := by
        rw [Nat.div_div_eq_div_mul, pow_succ']
      rw [tail, List.foldl_append, hdiv, ih, List.foldl_cons, List.foldl_nil,
        toNat_byte (by omega)]
      omega

theorem codePoint_tail {first : UInt8} {k n : Nat}
    (h : first.toNat % (1 <<< (6 - k)) = n / 64 ^ k) :
  codePoint first (tail k n) = n
  := by
  rw [codePoint, length_tail, h]
  exact foldl_tail k n

theorem matching_cons {ranges : List (UInt8 × UInt8)} {lo hi : UInt8} {n : Nat}
    (hlo : lo.toNat ≤ n % 64 + 0x80) (hhi : n % 64 + 0x80 ≤ hi.toNat) (rest : List UInt8) :
  matching ((lo, hi) :: ranges) (UInt8.ofNat (n % 64 + 0x80) :: rest)
    = matching ranges rest + 1
  := by
  have hn : n % 64 + 0x80 < 256 := by omega
  have hfit : lo ≤ UInt8.ofNat (n % 64 + 0x80) ∧ UInt8.ofNat (n % 64 + 0x80) ≤ hi := by
    rw [UInt8.le_iff_toNat_le, UInt8.le_iff_toNat_le, toNat_byte hn]
    exact ⟨hlo, hhi⟩
  rw [matching, if_pos hfit]

/-- Most followers lie anywhere between `80` and `BF`. -/
theorem matching_cons_all {ranges : List (UInt8 × UInt8)} (n : Nat) (rest : List UInt8) :
  matching ((0x80, 0xBF) :: ranges) (UInt8.ofNat (n % 64 + 0x80) :: rest)
    = matching ranges rest + 1
  := by
  apply matching_cons
  · exact Nat.le_add_left _ _
  · have := Nat.mod_lt n (show 0 < 64 by decide)
    rw [show (0xBF : UInt8).toNat = 191 from rfl]
    omega

/-! ### One character -/

/-- A first byte whose followers are in the ranges that it asks for begins a
character. -/
theorem decode_tail {first : UInt8} {ranges : List (UInt8 × UInt8)} {k n : Nat}
    (hfirst : ¬ first < 0x80) (hf : followers first = some ranges)
    (hlead : first.toNat % (1 <<< (6 - k)) = n / 64 ^ k) (rest : List UInt8)
    (hk : ranges.length = k) (hm : matching ranges (tail k n ++ rest) = k) :
  decode (first :: (tail k n ++ rest)) = Char.ofNat n :: decode rest
  := by
  have htake : (tail k n ++ rest).take k = tail k n := by
    rw [List.take_left' (length_tail k n)]
  have hdrop : (tail k n ++ rest).drop k = rest := by
    rw [List.drop_left' (length_tail k n)]
  rw [decode, if_neg hfirst, hf]
  simp only [hm, hk, if_true, htake, hdrop, codePoint_tail hlead]

theorem decode_two {n : Nat} (hlo : 0x80 ≤ n) (hhi : n < 0x800) (rest : List UInt8) :
  decode (UInt8.ofNat (n / 64 + 0xC0) :: (tail 1 n ++ rest)) = Char.ofNat n :: decode rest
  := by
  have h0 : (UInt8.ofNat (n / 64 + 0xC0)).toNat = n / 64 + 0xC0 := toNat_byte (by omega)
  have hf : followers (UInt8.ofNat (n / 64 + 0xC0)) = some [(0x80, 0xBF)] := by
    simp only [followers, UInt8.lt_iff_toNat_lt, h0, UInt8.reduceToNat]
    rw [if_neg (by omega), if_pos (by omega)]
  apply decode_tail (k := 1) _ hf _ _ rfl
  · exact matching_cons_all n rest
  · exact not_byte_lt (by omega) (by omega)
  · rw [h0]
    show (n / 64 + 0xC0) % 32 = n / 64 ^ 1
    omega

/-- The first follower of three bytes: neither a character that two bytes are enough for
nor a surrogate. -/
theorem followers_three {n : Nat} (hlo : 0x800 ≤ n) (hhi : n < 0x10000)
    (hs : n < 0xD800 ∨ 0xDFFF < n) :
  ∃ lo hi : UInt8,
    followers (UInt8.ofNat (n / 4096 + 0xE0)) = some [(lo, hi), (0x80, 0xBF)] ∧
      lo.toNat ≤ n / 64 % 64 + 0x80 ∧ n / 64 % 64 + 0x80 ≤ hi.toNat
  := by
  have h0 : (UInt8.ofNat (n / 4096 + 0xE0)).toNat = n / 4096 + 0xE0 := toNat_byte (by omega)
  simp only [followers, UInt8.lt_iff_toNat_lt, ← UInt8.toNat_inj, h0, UInt8.reduceToNat]
  rw [if_neg (by omega), if_neg (by omega)]
  split
  · refine ⟨0xA0, 0xBF, rfl, ?_⟩
    simp only [UInt8.reduceToNat]
    omega
  · split
    · refine ⟨0x80, 0x9F, rfl, ?_⟩
      simp only [UInt8.reduceToNat]
      omega
    · rw [if_pos (by omega)]
      refine ⟨0x80, 0xBF, rfl, ?_⟩
      simp only [UInt8.reduceToNat]
      omega

theorem decode_three {n : Nat} (hlo : 0x800 ≤ n) (hhi : n < 0x10000)
    (hs : n < 0xD800 ∨ 0xDFFF < n) (rest : List UInt8) :
  decode (UInt8.ofNat (n / 4096 + 0xE0) :: (tail 2 n ++ rest)) = Char.ofNat n :: decode rest
  := by
  have h0 : (UInt8.ofNat (n / 4096 + 0xE0)).toNat = n / 4096 + 0xE0 := toNat_byte (by omega)
  obtain ⟨lo, hi, hf, hl, hh⟩ := followers_three hlo hhi hs
  apply decode_tail (k := 2) _ hf _ _ rfl
  · simp only [tail, List.nil_append, List.cons_append]
    rw [matching_cons hl hh, matching_cons_all]
    rfl
  · exact not_byte_lt (by omega) (by omega)
  · rw [h0]
    show (n / 4096 + 0xE0) % 16 = n / 64 ^ 2
    omega

/-- The first follower of four bytes: neither a character that three bytes are enough for
nor one beyond the last code point. -/
theorem followers_four {n : Nat} (hlo : 0x10000 ≤ n) (hhi : n < 0x110000) :
  ∃ lo hi : UInt8,
    followers (UInt8.ofNat (n / 262144 + 0xF0))
        = some [(lo, hi), (0x80, 0xBF), (0x80, 0xBF)] ∧
      lo.toNat ≤ n / 4096 % 64 + 0x80 ∧ n / 4096 % 64 + 0x80 ≤ hi.toNat
  := by
  have h0 : (UInt8.ofNat (n / 262144 + 0xF0)).toNat = n / 262144 + 0xF0 :=
    toNat_byte (by omega)
  simp only [followers, UInt8.lt_iff_toNat_lt, ← UInt8.toNat_inj, h0, UInt8.reduceToNat]
  rw [if_neg (by omega), if_neg (by omega), if_neg (by omega), if_neg (by omega),
    if_neg (by omega)]
  split
  · refine ⟨0x90, 0xBF, rfl, ?_⟩
    simp only [UInt8.reduceToNat]
    omega
  · split
    · refine ⟨0x80, 0xBF, rfl, ?_⟩
      simp only [UInt8.reduceToNat]
      omega
    · rw [if_pos (by omega)]
      refine ⟨0x80, 0x8F, rfl, ?_⟩
      simp only [UInt8.reduceToNat]
      omega

theorem decode_four {n : Nat} (hlo : 0x10000 ≤ n) (hhi : n < 0x110000) (rest : List UInt8) :
  decode (UInt8.ofNat (n / 262144 + 0xF0) :: (tail 3 n ++ rest)) = Char.ofNat n :: decode rest
  := by
  have h0 : (UInt8.ofNat (n / 262144 + 0xF0)).toNat = n / 262144 + 0xF0 :=
    toNat_byte (by omega)
  obtain ⟨lo, hi, hf, hl, hh⟩ := followers_four hlo hhi
  apply decode_tail (k := 3) _ hf _ _ rfl
  · simp only [tail, List.nil_append, List.cons_append,
      Nat.div_div_eq_div_mul, Nat.reduceMul]
    rw [matching_cons hl hh, matching_cons_all, matching_cons_all]
    rfl
  · exact not_byte_lt (by omega) (by omega)
  · rw [h0]
    show (n / 262144 + 0xF0) % 8 = n / 64 ^ 3
    omega

/-- The bytes of a character are read as this character. -/
theorem decode_encodeChar (c : Char) (rest : List UInt8) :
  decode (String.utf8EncodeChar c ++ rest) = c :: decode rest
  := by
  have hvalid : c.toNat < 0xD800 ∨ 0xDFFF < c.toNat ∧ c.toNat < 0x110000 := c.valid
  have hchar : Char.ofNat c.toNat = c := Char.ofNat_toNat c
  simp only [String.utf8EncodeChar]
  rw [show c.val.toNat = c.toNat from rfl]
  generalize c.toNat = n at hvalid hchar
  rw [← hchar]
  split
  · have h0 : (UInt8.ofNat n).toNat = n := toNat_byte (by omega)
    have hlt : UInt8.ofNat n < 0x80 := by
      rw [UInt8.lt_iff_toNat_lt, h0, show (0x80 : UInt8).toNat = 0x80 from rfl]
      omega
    rw [List.singleton_append, decode, if_pos hlt, h0]
  split
  · rw [Nat.mod_eq_of_lt (show n / 64 < 0x20 by omega)]
    exact decode_two (by omega) (by omega) rest
  split
  · rw [Nat.mod_eq_of_lt (show n / 4096 < 0x10 by omega)]
    exact decode_three (by omega) (by omega) (by omega) rest
  · rw [Nat.mod_eq_of_lt (show n / 262144 < 0x08 by omega)]
    have h := decode_four (n := n) (by omega) (by omega) rest
    simpa only [tail, List.nil_append, List.singleton_append, List.cons_append,
      Nat.div_div_eq_div_mul, Nat.reduceMul] using h

/-- Reading is the inverse of writing. -/
theorem decode_encode (text : List Char) :
  decode (encode text) = text
  := by
  induction text with
  | nil => rw [encode, List.flatMap_nil, decode]
  | cons c text ih =>
      rw [encode, List.flatMap_cons, decode_encodeChar]
      exact congrArg _ ih

/-! ### The longest beginning -/

/-- A beginning of a text with at most `n` bytes, to which no further character can be
added. -/
structure LongestBeginning (n : Nat) (text kept : List Char) : Prop where
  isPrefix : kept <+: text
  length_le : (encode kept).length ≤ n
  longest : ∀ longer, longer <+: text → (encode longer).length ≤ n → longer <+: kept

theorem length_encode_cons (c : Char) (text : List Char) :
  (encode (c :: text)).length = c.utf8Size + (encode text).length
  := by simp [encode]

theorem keep_longestBeginning (n : Nat) (text : List Char) :
  LongestBeginning n text (keep n text)
  := by
  induction text generalizing n with
  | nil =>
      constructor
      · exact List.prefix_rfl
      · exact Nat.zero_le n
      · intro longer hp _
        exact hp
  | cons c text ih =>
      unfold keep
      split
      · rename_i hfit
        obtain ⟨hp, hle, hlongest⟩ := ih (n - c.utf8Size)
        constructor
        · exact List.cons_prefix_cons.mpr ⟨rfl, hp⟩
        · rw [length_encode_cons]
          omega
        · intro longer hl hn
          cases longer with
          | nil => exact List.nil_prefix
          | cons d longer =>
              obtain ⟨rfl, htail⟩ := List.cons_prefix_cons.mp hl
              rw [length_encode_cons] at hn
              exact List.cons_prefix_cons.mpr ⟨rfl, hlongest longer htail (by omega)⟩
      · rename_i hfit
        constructor
        · exact List.nil_prefix
        · exact Nat.zero_le n
        · intro longer hl hn
          cases longer with
          | nil => exact List.nil_prefix
          | cons d longer =>
              obtain ⟨rfl, -⟩ := List.cons_prefix_cons.mp hl
              rw [length_encode_cons] at hn
              omega

/-- A text that fits is kept whole. -/
theorem keep_of_length_le {n : Nat} {text : List Char} (h : (encode text).length ≤ n) :
  keep n text = text
  := by
  obtain ⟨hkept, -, hlongest⟩ := keep_longestBeginning n text
  have hall := hlongest text List.prefix_rfl h
  exact hkept.eq_of_length (Nat.le_antisymm hkept.length_le hall.length_le)

end ModelCar.Utf8
