import ModelCar.Proofs.Text.Utf8

/-!
# Where a text can be cut

The boundaries in the bytes of a text are the places where a beginning of the text ends, so
going back from a place to a boundary finds the longest beginning up to there:
`cut_encode` says that `cut n` counts the bytes of `keep n`.
-/

namespace ModelCar.Utf8

/-! ### The bytes of a character -/

theorem not_isFirst_of_mem_tail {b : UInt8} {k n : Nat} (h : b ∈ tail k n) :
  ¬ isFirst b
  := by
  induction k generalizing n with
  | zero => cases h
  | succ k ih =>
      rw [tail, List.mem_append, List.mem_singleton] at h
      obtain h | rfl := h
      · exact ih h
      · have hb := toNat_byte (show n % 64 + 0x80 < 256 by omega)
        simp only [isFirst, UInt8.lt_iff_toNat_lt, UInt8.le_iff_toNat_le, hb, UInt8.reduceToNat,
          decide_eq_true_eq]
        omega

theorem isFirst_byte {n : Nat} (h : n < 256) (hfirst : n < 0x80 ∨ 0xC0 ≤ n) :
  isFirst (UInt8.ofNat n)
  := by
  simpa only [isFirst, UInt8.lt_iff_toNat_lt, UInt8.le_iff_toNat_le, toNat_byte h,
    UInt8.reduceToNat, decide_eq_true_eq] using hfirst

/-- A character is a byte that begins it, and bytes that begin none. -/
theorem exists_utf8EncodeChar (c : Char) :
  ∃ first k n, String.utf8EncodeChar c = first :: tail k n ∧ isFirst first
  := by
  have hvalid : c.toNat < 0xD800 ∨ 0xDFFF < c.toNat ∧ c.toNat < 0x110000 := c.valid
  simp only [String.utf8EncodeChar]
  rw [show c.val.toNat = c.toNat from rfl]
  generalize c.toNat = n at hvalid
  split
  · exact ⟨_, 0, n, rfl, isFirst_byte (by omega) (by omega)⟩
  split
  · exact ⟨_, 1, n, rfl, isFirst_byte (by omega) (by omega)⟩
  split
  · exact ⟨_, 2, n, rfl, isFirst_byte (by omega) (by omega)⟩
  · refine ⟨_, 3, n, ?_, isFirst_byte (n := n / 262144 % 0x08 + 0xF0) (by omega) (by omega)⟩
    simp only [tail, List.nil_append, List.cons_append, Nat.div_div_eq_div_mul,
      Nat.reduceMul]

/-! ### Boundaries -/

theorem isBoundary_iff {bytes : List UInt8} {n : Nat} :
  isBoundary bytes n ↔ n = 0 ∨ n = bytes.length ∨ ∃ b, bytes[n]? = some b ∧ isFirst b
  := by rw [isBoundary, decide_eq_true_iff, Option.any_eq_true]

theorem isBoundary_zero (bytes : List UInt8) :
  isBoundary bytes 0
  := isBoundary_iff.mpr (.inl rfl)

theorem isFirst_head_encode {text : List Char} {b : UInt8} (h : (encode text)[0]? = some b) :
  isFirst b
  := by
  cases text with
  | nil => cases h
  | cons c text =>
      obtain ⟨first, k, n, hc, hfirst⟩ := exists_utf8EncodeChar c
      rw [encode, List.flatMap_cons, hc] at h
      obtain rfl : first = b := Option.some.inj h
      exact hfirst

/-- Within a character there is no boundary. -/
theorem not_isBoundary_within {first : UInt8} {k n i : Nat} (h : i < k) (rest : List UInt8) :
  ¬ isBoundary (first :: tail k n ++ rest) (i + 1)
  := by
  have hi : i < (tail k n).length := by rwa [length_tail]
  rw [isBoundary_iff, List.length_append, List.length_cons, length_tail, List.cons_append,
    List.getElem?_cons_succ, List.getElem?_append_left hi]
  rintro (hzero | hend | ⟨b, hb, hfirst⟩)
  · cases hzero
  · omega
  · exact not_isFirst_of_mem_tail (List.mem_of_getElem? hb) hfirst

/-- After a character the boundaries are those of the rest. -/
theorem isBoundary_after {first : UInt8} {k n i : Nat} (text : List Char) :
  isBoundary (first :: tail k n ++ encode text) (k + i + 1) ↔ isBoundary (encode text) i
  := by
  have hi : (tail k n).length ≤ k + i := by
    rw [length_tail]
    omega
  rw [isBoundary_iff, isBoundary_iff, List.length_append, List.length_cons, length_tail,
    List.cons_append, List.getElem?_cons_succ, List.getElem?_append_right hi, length_tail,
    Nat.add_sub_cancel_left]
  constructor
  · rintro (hzero | hend | hfirst)
    · cases hzero
    · exact .inr (.inl (by omega))
    · exact .inr (.inr hfirst)
  · rintro (rfl | hend | hfirst)
    · right
      cases hhead : (encode text)[0]? with
      | none =>
          left
          rw [List.getElem?_eq_none_iff] at hhead
          omega
      | some b => exact .inr ⟨b, rfl, isFirst_head_encode hhead⟩
    · exact .inr (.inl (by omega))
    · exact .inr (.inr hfirst)

/-- The beginnings of a text that are not empty have its first character. -/
theorem exists_front_cons_iff {c : Char} {text : List Char} {n : Nat} :
  (∃ front, front <+: c :: text ∧ (encode front).length = n + 1) ↔
    ∃ front, front <+: text ∧ c.utf8Size + (encode front).length = n + 1
  := by
  constructor
  · rintro ⟨front, hfront, hlen⟩
    obtain rfl | ⟨rest, rfl, hrest⟩ := List.prefix_cons_iff.mp hfront
    · cases hlen
    · rw [length_encode_cons] at hlen
      exact ⟨rest, hrest, hlen⟩
  · rintro ⟨front, hfront, hlen⟩
    rw [← length_encode_cons] at hlen
    exact ⟨c :: front, List.cons_prefix_cons.mpr ⟨rfl, hfront⟩, hlen⟩

/-- The boundaries in a text are the places where a beginning of it ends. -/
theorem isBoundary_encode_iff {text : List Char} {n : Nat} :
  isBoundary (encode text) n ↔ ∃ front, front <+: text ∧ (encode front).length = n
  := by
  induction text generalizing n with
  | nil =>
      cases n with
      | zero => exact iff_of_true (isBoundary_zero _) ⟨[], List.nil_prefix, rfl⟩
      | succ n =>
          have hnot : ¬ isBoundary (encode []) (n + 1) := Bool.false_ne_true
          apply iff_of_false hnot
          rintro ⟨front, hfront, hlen⟩
          rw [List.prefix_nil.mp hfront] at hlen
          cases hlen
  | cons c text ih =>
      obtain ⟨first, k, m, hc, -⟩ := exists_utf8EncodeChar c
      have hsize : c.utf8Size = k + 1 := by
        rw [← String.length_utf8EncodeChar, hc, List.length_cons, length_tail]
      have hbytes : encode (c :: text) = first :: tail k m ++ encode text := by
        rw [encode, List.flatMap_cons, hc]
        rfl
      cases n with
      | zero => exact iff_of_true (isBoundary_zero _) ⟨[], List.nil_prefix, rfl⟩
      | succ n =>
          rw [exists_front_cons_iff, hbytes, hsize]
          obtain hlt | hge := Nat.lt_or_ge n k
          · apply iff_of_false (not_isBoundary_within hlt _)
            rintro ⟨front, -, hlen⟩
            omega
          · obtain ⟨i, rfl⟩ := Nat.exists_eq_add_of_le hge
            rw [isBoundary_after, ih]
            apply exists_congr
            intro front
            apply and_congr_right'
            omega

/-! ### The way back -/

/-- The way back ends at the last boundary. -/
theorem boundaryBefore?_eq_some {bytes : List UInt8} {n m : Nat} (hle : m ≤ n)
    (hm : isBoundary bytes m) (hlast : ∀ k, m < k → k ≤ n → ¬ isBoundary bytes k) :
  boundaryBefore? bytes n = some m
  := by
  induction n with
  | zero =>
      obtain rfl := Nat.le_zero.mp hle
      rw [boundaryBefore?, if_pos hm]
  | succ n ih =>
      rw [boundaryBefore?]
      obtain rfl | hlt := hle.eq_or_lt
      · rw [if_pos hm]
      · rw [if_neg (hlast (n + 1) hlt le_rfl)]
        apply ih (Nat.le_of_lt_succ hlt)
        intro k hk hkn
        exact hlast k hk (Nat.le_succ_of_le hkn)

theorem encode_append (front rest : List Char) :
  encode (front ++ rest) = encode front ++ encode rest
  := List.flatMap_append

theorem length_encode_le {front text : List Char} (h : front <+: text) :
  (encode front).length ≤ (encode text).length
  := by
  obtain ⟨rest, rfl⟩ := h
  rw [encode_append, List.length_append]
  exact Nat.le_add_right _ _

/-- From a limit on the number of bytes the way back leads to the end of the longest
beginning that has no more. -/
theorem boundaryBefore?_encode {n : Nat} {text kept : List Char}
    (h : LongestBeginning n text kept) :
  boundaryBefore? (encode text) (min (encode text).length n) = some (encode kept).length
  := by
  obtain ⟨hkept, hle, hlongest⟩ := h
  apply boundaryBefore?_eq_some
  · exact Nat.le_min.mpr ⟨length_encode_le hkept, hle⟩
  · exact isBoundary_encode_iff.mpr ⟨kept, hkept, rfl⟩
  · rintro k hk hkn hboundary
    obtain ⟨front, hfront, rfl⟩ := isBoundary_encode_iff.mp hboundary
    have hshort := hlongest front hfront (Nat.le_min.mp hkn).2
    exact hk.not_ge (length_encode_le hshort)

theorem cut_encode {n : Nat} {text kept : List Char} (h : LongestBeginning n text kept) :
  cut n (encode text) = (encode kept).length
  := Option.get_of_eq_some _ (boundaryBefore?_encode h)

/-- The bytes that are left when a text is cut are those of its longest beginning. -/
theorem take_cut_encode {n : Nat} {text kept : List Char} (h : LongestBeginning n text kept) :
  (encode text).take (cut n (encode text)) = encode kept
  := by
  rw [cut_encode h]
  obtain ⟨rest, rfl⟩ := h.isPrefix
  rw [encode_append, List.take_left]

theorem LongestBeginning.eq {n : Nat} {text kept other : List Char}
    (h : LongestBeginning n text kept) (hother : LongestBeginning n text other) :
  kept = other
  := by
  have hle := hother.longest kept h.isPrefix h.length_le
  have hge := h.longest other hother.isPrefix hother.length_le
  exact hle.eq_of_length_le hge.length_le

/-- Of a text with more bytes than fit, at most three of those that fit are lost, because no
character has more than four. -/
theorem LongestBeginning.le_length_add {n : Nat} {text kept : List Char}
    (h : LongestBeginning n text kept) (hlong : n < (encode text).length) :
  n ≤ (encode kept).length + 3
  := by
  obtain ⟨⟨rest, rfl⟩, hle, hlongest⟩ := h
  cases rest with
  | nil =>
      rw [List.append_nil] at hlong
      omega
  | cons c rest =>
      by_contra hshort
      have hsize := c.utf8Size_le_four
      have hfits : (encode (kept ++ [c])).length ≤ n := by
        rw [encode_append, List.length_append, length_encode_cons,
          show (encode []).length = 0 from rfl]
        omega
      have hlonger := hlongest (kept ++ [c]) ⟨rest, (List.append_cons ..).symm⟩ hfits
      have hlength := hlonger.length_le
      rw [List.length_append, List.length_singleton] at hlength
      omega

end ModelCar.Utf8
