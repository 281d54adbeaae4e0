import ModelCar.Proofs.Motion.Direction
import ModelCar.Proofs.Motion.Rest
import ModelCar.Proofs.Number.Near

/-!
# The same value over and over

The mean of copies of one value is this value, exactly, and they have no variance: every
distance to the mean but the first is zero, and so is the last factor of every product.
Adding up copies of a value never falls behind the value itself.
-/

namespace ModelCar

open Float.Model

theorem abs_zero_le_maxValue :
  |(0 : ℝ)| ≤ maxValue .binary64
  := le_maxValue_of_le_seven (by decide) (by norm_num)

namespace Moments

variable {m : Moments Float} {x : Float}

/-! ### Mean and variance -/

/-- A value that is the mean afterwards adds nothing to the spread. -/
theorem spread_push (hx : x.isFinite) (hd : (x - m.mean).isFinite)
    (hm : (m.push x).mean.isFinite) (heq : double (m.push x).mean = double x)
    (hs : m.spread.isFinite) (h0 : double m.spread = 0) :
  (m.push x).spread.isFinite ∧ double (m.push x).spread = 0
  := by
  have hzero := representable_zero .binary64
  have hrest : RoundsTo 0 (x - (m.push x).mean) := by
    have hr := roundsTo_sub hx hm (by rw [heq, sub_self]; exact abs_zero_le_maxValue)
    rwa [heq, sub_self] at hr
  have hrest0 : double (x - (m.push x).mean) = 0 := hrest.value_eq hzero
  have hprod : RoundsTo 0 ((x - m.mean) * (x - (m.push x).mean)) := by
    have hr := roundsTo_mul hd hrest.isFinite
      (by rw [hrest0, mul_zero]; exact abs_zero_le_maxValue)
    rwa [hrest0, mul_zero] at hr
  have hprod0 : double ((x - m.mean) * (x - (m.push x).mean)) = 0 := hprod.value_eq hzero
  have hsum := roundsTo_add hs hprod.isFinite
    (by rw [h0, hprod0, add_zero]; exact abs_zero_le_maxValue)
  rw [h0, hprod0, add_zero] at hsum
  exact ⟨hsum.isFinite, hsum.value_eq hzero⟩

/-- Copies of a value have this value as their mean, and no spread. -/
theorem ofList_replicate (hx : Moderate x) {n : Nat} (hn : 0 < n) (hlt : n < 2 ^ 53) :
  (Moderate (ofList (List.replicate n x)).mean ∧
    double (ofList (List.replicate n x)).mean = double x) ∧
  (ofList (List.replicate n x)).spread.isFinite ∧
    double (ofList (List.replicate n x)).spread = 0
  := by
  have hmean {k : Nat} (hk : 0 < k) (hklt : k < 2 ^ 53) :
      Moderate (ofList (List.replicate k x)).mean ∧
        double (ofList (List.replicate k x)).mean = double x := by
    apply mean_ofList Set.ordConnected_singleton
    · simp only [ne_eq, List.replicate_eq_nil_iff]
      omega
    · rwa [List.length_replicate]
    · intro y hy
      rw [List.eq_of_mem_replicate hy]
      exact ⟨hx, rfl⟩
  refine ⟨hmean hn hlt, ?_⟩
  induction n with
  | zero => cases hn
  | succ k ih =>
      obtain ⟨hm, heq⟩ := hmean hn hlt
      rw [List.replicate_succ', ofList_concat] at hm heq ⊢
      obtain rfl | hk := Nat.eq_zero_or_pos k
      · obtain ⟨hzf, hz⟩ := double_zero
        have hd := roundsTo_sub hx.isFinite hzf (by rw [hz, sub_zero]; exact abs_double_le x)
        exact spread_push hx.isFinite hd.isFinite hm.isFinite heq hzf hz
      · obtain ⟨hs, h0⟩ := ih hk (by omega)
        have hd := roundsTo_sub hx.isFinite (hmean hk (by omega)).1.isFinite
          (hx.abs_sub_le (hmean hk (by omega)).1)
        exact spread_push hx.isFinite hd.isFinite hm.isFinite heq hs h0

theorem variance_replicate (hx : Moderate x) {n : Nat} (hn : 0 < n) (hlt : n < 2 ^ 53) :
  (ofList (List.replicate n x)).variance.isFinite ∧
    double (ofList (List.replicate n x)).variance = 0
  := by
  obtain ⟨-, hs, h0⟩ := ofList_replicate hx hn hlt
  have hr := roundsTo_div_ofNat hs hn hlt
  rw [h0, zero_div] at hr
  rw [variance, count_ofList, List.length_replicate]
  exact ⟨hr.isFinite, hr.value_eq (representable_zero _)⟩

end Moments

/-! ### Sums -/

/-- The sum of some copies of a number, added up one by one. -/
def sumOfCopies (x : Float) (n : Nat) : Float :=
  (· + x)^[n] 0.0

theorem sumOfCopies_succ (x : Float) (n : Nat) :
  sumOfCopies x (n + 1) = sumOfCopies x n + x
  := Function.iterate_succ_apply' ..

/-- A sum of copies grows by at most as much as a representable bound of the number, and it
lies beyond the number as soon as it holds one copy. -/
structure Grows (x : Float) (n : Nat) : Prop where
  isFinite : (sumOfCopies x n).isFinite
  abs_le : |double (sumOfCopies x n)| ≤ (4 * n : Nat)
  above : 0 ≤ double x → 0 ≤ double (sumOfCopies x n) ∧
    (n ≠ 0 → double x ≤ double (sumOfCopies x n))
  below : double x ≤ 0 → double (sumOfCopies x n) ≤ 0 ∧
    (n ≠ 0 → double (sumOfCopies x n) ≤ double x)

theorem grows {x : Float} (hx : x.isFinite) (h : |double x| ≤ 4) {n : Nat}
    (hn : n < 2 ^ 32) :
  Grows x n
  := by
  induction n with
  | zero =>
      obtain ⟨hzf, hz⟩ := double_zero
      constructor
      · exact hzf
      · rw [show sumOfCopies x 0 = 0.0 from rfl, hz]
        norm_num
      · intro _
        rw [show sumOfCopies x 0 = 0.0 from rfl, hz]
        exact ⟨le_rfl, fun hne => absurd rfl hne⟩
      · intro _
        rw [show sumOfCopies x 0 = 0.0 from rfl, hz]
        exact ⟨le_rfl, fun hne => absurd rfl hne⟩
  | succ n ih =>
      obtain ⟨hf, habs, habove, hbelow⟩ := ih (by omega)
      have hlt : 4 * (n + 1) < 2 ^ 53 := by omega
      have hle : |double (sumOfCopies x n) + double x| ≤ (4 * (n + 1) : Nat) := by
        apply (abs_add_le _ _).trans
        push_cast at habs ⊢
        linarith
      have hmax := natCast_le_maxValue (f := .binary64) (by decide) hlt
      rw [abs_of_nonneg (Nat.cast_nonneg _)] at hmax
      have hr := roundsTo_add hf hx (hle.trans hmax)
      rw [← sumOfCopies_succ] at hr
      have hrep := representable_double x
      constructor
      · exact hr.isFinite
      · exact hr.abs_value_le (representable_natCast hlt) hle
      · intro h0
        have hge := hr.ge_of_ge hrep (by linarith [(habove h0).1])
        exact ⟨h0.trans hge, fun _ => hge⟩
      · intro h0
        have hge := hr.le_of_le hrep (by linarith [(hbelow h0).1])
        exact ⟨hge.trans h0, fun _ => hge⟩

/-- The sum of copies is at least as large as one of them. -/
theorem Grows.le_abs {x : Float} {n : Nat} (h : Grows x n) (hn : n ≠ 0) :
  |double x| ≤ |double (sumOfCopies x n)|
  := by
  obtain h0 | h0 := le_total 0 (double x)
  · obtain ⟨hs, hle⟩ := h.above h0
    rw [abs_of_nonneg h0, abs_of_nonneg hs]
    exact hle hn
  · obtain ⟨hs, hle⟩ := h.below h0
    rw [abs_of_nonpos h0, abs_of_nonpos hs]
    linarith [hle hn]

theorem Grows.moderate {x : Float} {n : Nat} (h : Grows x n) (hn : n < 2 ^ 32) :
  Moderate (sumOfCopies x n)
  := by
  use h.isFinite
  have hle : ((4 * n : Nat) : ℝ) ≤ 2 ^ (34 : ℤ) := by
    have : 4 * n ≤ 2 ^ 34 := by omega
    exact_mod_cast this
  exact (h.abs_le.trans hle).trans (zpow_le_maxValue (by decide))

end ModelCar
