import ModelCar.Proofs.Number.Double
import ModelCar.Motion.Statistics

/-!
# The mean of rounded numbers

`Moments` moves its mean towards every new value by a fraction of the distance.  The
distance, the fraction and the new mean are all rounded, and still the new mean lies
between the old one and the value: `mean_push`.  So the mean stays in every interval that
holds the values.
-/

namespace ModelCar

open Float.Model

/-! ### Fractions of a distance -/

section
variable {f : Format} {v w : ℝ}

theorem Representable.exists_multiple (h : Representable f v) :
  ∃ k : ℤ, v = k * 2 ^ f.minExponent
  := by
  obtain h | ⟨hlt, -⟩ := h.cases f.minExponent
  · exact h
  · cases lt_irrefl _ hlt

/-- The numbers of a format are no closer to each other than its smallest number is to
zero. -/
theorem Representable.le_sub (hv : Representable f v) (hw : Representable f w)
    (h : w < v) :
  2 ^ f.minExponent ≤ v - w
  := by
  obtain ⟨k, rfl⟩ := hv.exists_multiple
  obtain ⟨l, rfl⟩ := hw.exists_multiple
  have hpow : (0 : ℝ) < 2 ^ f.minExponent := by positivity
  rw [mul_lt_mul_iff_left₀ hpow] at h
  have hone : (1 : ℝ) ≤ k - l := by
    have : l < k := by exact_mod_cast h
    have : 1 ≤ k - l := by omega
    exact_mod_cast this
  calc (2 : ℝ) ^ f.minExponent = 1 * 2 ^ f.minExponent := (one_mul _).symm
    _ ≤ (k - l) * 2 ^ f.minExponent := by gcongr
    _ = k * 2 ^ f.minExponent - l * 2 ^ f.minExponent := sub_mul ..

/-- Half of a distance, or less of it, is no more than the distance, even if both are
rounded. -/
theorem fraction_le {d q : UnpackedFloat} {n : ℝ} (hv : Representable f v)
    (hw : Representable f w) (hle : w ≤ v) (hn : 2 ≤ n) (hd : Rounds f (v - w) d)
    (hq : Rounds f (value d / n) q) :
  0 ≤ value q ∧ value q ≤ v - w
  := by
  have hzero := representable_zero f
  have hnonneg : 0 ≤ value d := hd.ge_of_ge hzero (by linarith)
  use hq.ge_of_ge hzero (by positivity)
  obtain rfl | hlt := hle.eq_or_lt
  · rw [sub_self] at hd ⊢
    rw [hd.value_eq hzero, zero_div] at hq
    exact (hq.value_eq hzero).le
  · obtain ⟨k, hk, hlo, hhi⟩ := exists_zpow_le (hv.le_sub hw hlt)
    have hdle : value d ≤ 2 ^ (k + 1) := hd.le_of_le (representable_zpow (by omega)) hhi.le
    have hhalf : value d / n ≤ 2 ^ k := by
      rw [div_le_iff₀ (by linarith)]
      calc value d ≤ 2 ^ (k + 1) := hdle
        _ = 2 ^ k * 2 := zpow_add_one₀ two_ne_zero k
        _ ≤ 2 ^ k * n := by gcongr
    exact (hq.le_of_le (representable_zpow hk) hhalf).trans hlo

/-- A fraction of the way from one number to another leads to a place between them. -/
theorem add_fraction_mem {d q : UnpackedFloat} {n : ℝ} (hv : Representable f v)
    (hw : Representable f w) (hn : 2 ≤ n) (hd : Rounds f (v - w) d)
    (hq : Rounds f (value d / n) q) :
  w + value q ∈ Set.uIcc w v
  := by
  obtain hle | hle := le_total w v
  · obtain ⟨hlo, hhi⟩ := fraction_le hv hw hle hn hd hq
    rw [Set.uIcc_of_le hle]
    exact ⟨by linarith, by linarith⟩
  · have hd := hd.neg
    have hq := hq.neg
    rw [neg_sub] at hd
    rw [← neg_div, ← value_neg] at hq
    obtain ⟨hlo, hhi⟩ := fraction_le hw hv hle hn hd hq
    rw [value_neg] at hlo hhi
    rw [Set.uIcc_of_ge hle]
    exact ⟨by linarith, by linarith⟩

end

/-! ### Moderate numbers -/

theorem ordConnected_abs_le (b : ℝ) :
  {r : ℝ | |r| ≤ b}.OrdConnected
  := by
  have h : {r : ℝ | |r| ≤ b} = Set.Icc (-b) b := by
    ext r
    rw [Set.mem_ofPred_eq, abs_le, Set.mem_Icc]
  rw [h]
  exact Set.ordConnected_Icc

/-- The distance of moderate numbers is in the range of double precision. -/
theorem Moderate.abs_sub_le {x y : Float} (hx : Moderate x) (hy : Moderate y) :
  |double x - double y| ≤ maxValue .binary64
  := by
  calc |double x - double y| ≤ |double x| + |double y| := abs_sub _ _
    _ ≤ 2 ^ (128 : ℤ) + 2 ^ (128 : ℤ) := add_le_add hx.abs_le_zpow hy.abs_le_zpow
    _ = 2 ^ (129 : ℤ) := by norm_num
    _ ≤ maxValue .binary64 := zpow_le_maxValue (by decide)

namespace Moments

/-! ### Adding a value -/

variable {m : Moments Float} {x : Float}

/-- The first value is its own mean. -/
theorem mean_push_empty (hx : Moderate x) :
  (empty.push x).mean.isFinite ∧ double (empty.push x).mean = double x
  := by
  have hrep := representable_double x
  obtain ⟨hzf, hz⟩ := double_zero
  have hd := roundsTo_sub hx.isFinite hzf (by rw [hz, sub_zero]; exact abs_double_le x)
  rw [hz, sub_zero] at hd
  have hdx : double (x - 0.0) = double x := hd.value_eq hrep
  have hq := roundsTo_div_ofNat hd.isFinite one_pos (by decide)
  rw [Nat.cast_one, div_one, hdx] at hq
  have hqx : double ((x - 0.0) / Float.ofNat 1) = double x := hq.value_eq hrep
  have hsum := roundsTo_add hzf hq.isFinite (by rw [hz, zero_add]; exact abs_double_le _)
  rw [hz, zero_add, hqx] at hsum
  exact ⟨hsum.isFinite, hsum.value_eq hrep⟩

/-- The mean moves towards a value, and not beyond it. -/
theorem mean_push (hm : Moderate m.mean) (hx : Moderate x) (hpos : 0 < m.count)
    (hlt : m.count + 1 < 2 ^ 53) :
  (m.push x).mean.isFinite ∧ double (m.push x).mean ∈ Set.uIcc (double m.mean) (double x)
  := by
  have hxr := representable_double x
  have hmr := representable_double m.mean
  have htwo : (2 : ℝ) ≤ (m.count + 1 : Nat) := by exact_mod_cast Nat.succ_le_succ hpos
  have hd := roundsTo_sub hx.isFinite hm.isFinite (hx.abs_sub_le hm)
  have hq := roundsTo_div_ofNat hd.isFinite (Nat.succ_pos m.count) hlt
  have hmem := add_fraction_mem hxr hmr htwo hd hq
  have habs := (ordConnected_abs_le _).uIcc_subset hm.abs_le hx.abs_le hmem
  have hsum := roundsTo_add hm.isFinite hq.isFinite (habs.trans maxValue_single_le)
  exact ⟨hsum.isFinite, hsum.mem_uIcc hxr hmr hmem⟩

/-! ### All values -/

/-- The moments of the values of a list. -/
def ofList {β : Type} [Scalar β] (xs : List β) : Moments β :=
  xs.foldl push empty

theorem ofList_concat {β : Type} [Scalar β] (xs : List β) (x : β) :
  ofList (xs ++ [x]) = (ofList xs).push x
  := List.foldl_concat ..

theorem count_ofList {β : Type} [Scalar β] (xs : List β) :
  (ofList xs).count = xs.length
  := by
  induction xs using List.reverseRecOn with
  | nil => rfl
  | append_singleton xs x ih =>
      rw [ofList_concat, push, ih, List.length_append, List.length_singleton]

/-- The mean of a list lies in every interval that holds the values of the list. -/
theorem mean_ofList {S : Set ℝ} (hS : S.OrdConnected) {xs : List Float} (hne : xs ≠ [])
    (hlen : xs.length < 2 ^ 53) (hxs : ∀ x ∈ xs, Moderate x ∧ double x ∈ S) :
  Moderate (ofList xs).mean ∧ double (ofList xs).mean ∈ S
  := by
  induction xs using List.reverseRecOn with
  | nil => cases hne rfl
  | append_singleton xs x ih =>
      obtain ⟨hx, hxS⟩ := hxs x (List.mem_concat_self ..)
      rw [ofList_concat]
      obtain rfl | hne := eq_or_ne xs []
      · obtain ⟨hfinite, heq⟩ := mean_push_empty hx
        refine ⟨⟨hfinite, ?_⟩, ?_⟩
        · exact heq ▸ hx.abs_le
        · exact heq ▸ hxS
      · rw [List.length_append, List.length_singleton] at hlen
        have hpos : 0 < xs.length := List.length_pos_iff.mpr hne
        rw [← count_ofList] at hlen hpos
        obtain ⟨hm, hmS⟩ := ih hne (by rw [← count_ofList]; omega)
          fun y hy => hxs y (List.mem_append_left _ hy)
        obtain ⟨hfinite, hmem⟩ := mean_push hm hx hpos hlen
        exact ⟨⟨hfinite, (ordConnected_abs_le _).uIcc_subset hm.abs_le hx.abs_le hmem⟩,
          hS.uIcc_subset hmS hxS hmem⟩

end Moments

end ModelCar
