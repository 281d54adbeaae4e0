import ModelCar.Motion.Quaternion
import ModelCar.Proofs.Number.Exact

/-!
# Quaternions as rotations

In exact arithmetic quaternions are those of Hamilton, so that the norm of a product is the
product of the norms.  For every rotation matrix `ofAxes` gives a quaternion of norm one that
turns all vectors as the matrix does, whichever of its components it begins with:
`turns_ofAxes`.
-/

section
open scoped Quaternion

/-- The quaternions of Hamilton over the real numbers. -/
abbrev ModelCar.Hamilton : Type := ℍ[ℝ]

end

namespace ModelCar

/-- A vector as a quaternion without a real part. -/
def Vector3.toHamilton (v : Vector3 ℝ) : Hamilton :=
  ⟨0, v.x, v.y, v.z⟩

namespace Quaternion

/-! ### Norms -/

/-- A quaternion of real numbers as one of Hamilton. -/
def toHamilton (q : Quaternion ℝ) : Hamilton :=
  ⟨q.w, q.x, q.y, q.z⟩

variable {q r : Quaternion ℝ}

theorem toHamilton_identity :
  (@identity ℝ realScalar).toHamilton = 1
  := by
  have hone : (1.0 : ℝ) = 1 := by norm_num
  have hzero : (0.0 : ℝ) = 0 := by norm_num
  ext
  · exact hone
  · exact hzero
  · exact hzero
  · exact hzero

theorem toHamilton_product (q r : Quaternion ℝ) :
  (@product ℝ realScalar q r).toHamilton = q.toHamilton * r.toHamilton
  := by
  ext
  · exact (Quaternion.re_mul q.toHamilton r.toHamilton).symm
  · exact (Quaternion.imI_mul q.toHamilton r.toHamilton).symm
  · exact (Quaternion.imJ_mul q.toHamilton r.toHamilton).symm
  · exact (Quaternion.imK_mul q.toHamilton r.toHamilton).symm

theorem norm_sq_toHamilton (q : Quaternion ℝ) :
  ‖q.toHamilton‖ * ‖q.toHamilton‖ = q.w * q.w + q.x * q.x + q.y * q.y + q.z * q.z
  := by
  rw [← Quaternion.normSq_eq_norm_mul_self, Quaternion.normSq_def']
  simp only [pow_two]
  rfl

theorem norm_exact (q : Quaternion ℝ) :
  @norm ℝ realScalar q = ‖q.toHamilton‖
  := by
  rw [← Real.sqrt_mul_self (norm_nonneg q.toHamilton), norm_sq_toHamilton]
  rfl

/-- In exact arithmetic a quaternion is normalized unless it is too small. -/
theorem normalized?_exact (q : Quaternion ℝ) :
  @normalized? ℝ realScalar q =
    if ‖q.toHamilton‖ ≤ 1.17549435e-38 then none
    else some ⟨q.w / ‖q.toHamilton‖, q.x / ‖q.toHamilton‖, q.y / ‖q.toHamilton‖,
      q.z / ‖q.toHamilton‖⟩
  := by
  let := realScalar
  have hfinite (x : ℝ) : Scalar.isFinite x = true := rfl
  simp only [normalized?, norm_exact, hfinite, not_true_eq_false, false_or, isFinite,
    Bool.and_self, if_true]
  rfl

theorem norm_of_normalized? (h : @normalized? ℝ realScalar q = some r) :
  ‖r.toHamilton‖ = 1
  := by
  rw [normalized?_exact] at h
  split at h
  · cases h
  · rename_i hsize
    have hpos : 0 < ‖q.toHamilton‖ := lt_trans (by norm_num) (not_le.mp hsize)
    have hr : r.toHamilton = ‖q.toHamilton‖⁻¹ • q.toHamilton := by
      cases h
      ext
      · exact div_eq_inv_mul ..
      · exact div_eq_inv_mul ..
      · exact div_eq_inv_mul ..
      · exact div_eq_inv_mul ..
    rw [hr, norm_smul, norm_inv, norm_norm, inv_mul_cancel₀ hpos.ne']

theorem normalized?_of_norm_eq_one (h : ‖q.toHamilton‖ = 1) :
  @normalized? ℝ realScalar q = some q
  := by
  rw [normalized?_exact, h, if_neg (by norm_num)]
  simp only [div_one]

/-! ### Rotations -/

/-- A quaternion of norm one turns a vector to another one. -/
def Rotates (q : Quaternion ℝ) (v w : Vector3 ℝ) : Prop :=
  q.toHamilton * v.toHamilton * star q.toHamilton = w.toHamilton

/-- What a quaternion turns a vector to, in the products of its components. -/
theorem rotates_products (q : Quaternion ℝ) (v : Vector3 ℝ) :
  q.Rotates v
    { x := (q.w * q.w + q.x * q.x - q.y * q.y - q.z * q.z) * v.x
        + 2 * (q.x * q.y - q.w * q.z) * v.y + 2 * (q.x * q.z + q.w * q.y) * v.z
      y := 2 * (q.x * q.y + q.w * q.z) * v.x
        + (q.w * q.w - q.x * q.x + q.y * q.y - q.z * q.z) * v.y
        + 2 * (q.y * q.z - q.w * q.x) * v.z
      z := 2 * (q.x * q.z - q.w * q.y) * v.x + 2 * (q.y * q.z + q.w * q.x) * v.y
        + (q.w * q.w - q.x * q.x - q.y * q.y + q.z * q.z) * v.z }
  := by
  ext
  all_goals
    simp only [Quaternion.re_mul, Quaternion.imI_mul, Quaternion.imJ_mul, Quaternion.imK_mul,
      Quaternion.re_star, Quaternion.imI_star, Quaternion.imJ_star, Quaternion.imK_star]
    simp only [toHamilton, Vector3.toHamilton]
    ring

variable {m : Matrix (Fin 3) (Fin 3) ℝ}

/-- A column of a matrix as a vector. -/
def column (m : Matrix (Fin 3) (Fin 3) ℝ) (j : Fin 3) : Vector3 ℝ :=
  ⟨m 0 j, m 1 j, m 2 j⟩

/-- A quaternion of norm one that turns the axes to the columns of a matrix. -/
structure Turns (q : Quaternion ℝ) (m : Matrix (Fin 3) (Fin 3) ℝ) : Prop where
  norm_eq_one : ‖q.toHamilton‖ = 1
  first : q.Rotates ⟨1, 0, 0⟩ (column m 0)
  second : q.Rotates ⟨0, 1, 0⟩ (column m 1)
  third : q.Rotates ⟨0, 0, 1⟩ (column m 2)

/-! ### From a matrix to a quaternion -/

/-- The components of a quaternion in order. -/
def components (q : Quaternion ℝ) : Fin 4 → ℝ :=
  ![q.w, q.x, q.y, q.z]

/-- The products of the components of a quaternion that turns the axes to the columns of a
matrix, four times each. -/
def products (m : Matrix (Fin 3) (Fin 3) ℝ) : Matrix (Fin 4) (Fin 4) ℝ :=
  !![1 + m 0 0 + m 1 1 + m 2 2, m 2 1 - m 1 2, m 0 2 - m 2 0, m 1 0 - m 0 1;
    m 2 1 - m 1 2, 1 + m 0 0 - m 1 1 - m 2 2, m 0 1 + m 1 0, m 0 2 + m 2 0;
    m 0 2 - m 2 0, m 0 1 + m 1 0, 1 + m 1 1 - m 0 0 - m 2 2, m 1 2 + m 2 1;
    m 1 0 - m 0 1, m 0 2 + m 2 0, m 1 2 + m 2 1, 1 + m 2 2 - m 0 0 - m 1 1]

theorem turns_of_products (h : ∀ i j, 4 * (q.components i * q.components j) = products m i j) :
  q.Turns m
  := by
  have hww : 4 * (q.w * q.w) = 1 + m 0 0 + m 1 1 + m 2 2 := h 0 0
  have hxx : 4 * (q.x * q.x) = 1 + m 0 0 - m 1 1 - m 2 2 := h 1 1
  have hyy : 4 * (q.y * q.y) = 1 + m 1 1 - m 0 0 - m 2 2 := h 2 2
  have hzz : 4 * (q.z * q.z) = 1 + m 2 2 - m 0 0 - m 1 1 := h 3 3
  have hwx : 4 * (q.w * q.x) = m 2 1 - m 1 2 := h 0 1
  have hwy : 4 * (q.w * q.y) = m 0 2 - m 2 0 := h 0 2
  have hwz : 4 * (q.w * q.z) = m 1 0 - m 0 1 := h 0 3
  have hxy : 4 * (q.x * q.y) = m 0 1 + m 1 0 := h 1 2
  have hxz : 4 * (q.x * q.z) = m 0 2 + m 2 0 := h 1 3
  have hyz : 4 * (q.y * q.z) = m 1 2 + m 2 1 := h 2 3
  have hnorm : ‖q.toHamilton‖ * ‖q.toHamilton‖ = 1 := by
    rw [norm_sq_toHamilton]
    linarith
  constructor
  · rw [← Real.sqrt_mul_self (norm_nonneg q.toHamilton), hnorm, Real.sqrt_one]
  · convert q.rotates_products ⟨1, 0, 0⟩ using 1
    simp only [column, Vector3.mk.injEq]
    exact ⟨by linarith, by linarith, by linarith⟩
  · convert q.rotates_products ⟨0, 1, 0⟩ using 1
    simp only [column, Vector3.mk.injEq]
    exact ⟨by linarith, by linarith, by linarith⟩
  · convert q.rotates_products ⟨0, 0, 1⟩ using 1
    simp only [column, Vector3.mk.injEq]
    exact ⟨by linarith, by linarith, by linarith⟩

theorem mul_transpose_eq_one (hm : m ∈ Matrix.specialOrthogonalGroup (Fin 3) ℝ) :
  m * m.transpose = 1
  := (Matrix.mem_orthogonalGroup_iff (Fin 3) ℝ).mp
    (Matrix.mem_specialOrthogonalGroup_iff.mp hm).1

theorem sum_mul_rows (hm : m ∈ Matrix.specialOrthogonalGroup (Fin 3) ℝ) (i j : Fin 3) :
  m i 0 * m j 0 + m i 1 * m j 1 + m i 2 * m j 2 = if i = j then 1 else 0
  := by
  rw [← Matrix.one_apply, ← mul_transpose_eq_one hm, Matrix.mul_apply, Fin.sum_univ_three]
  rfl

theorem sum_mul_columns (hm : m ∈ Matrix.specialOrthogonalGroup (Fin 3) ℝ) (i j : Fin 3) :
  m 0 i * m 0 j + m 1 i * m 1 j + m 2 i * m 2 j = if i = j then 1 else 0
  := by
  rw [← Matrix.one_apply, ← mul_eq_one_comm.mp (mul_transpose_eq_one hm), Matrix.mul_apply,
    Fin.sum_univ_three]
  rfl

/-- Every entry of a rotation is its own cofactor, since its inverse is both its transpose and
its adjugate. -/
theorem cofactor (hm : m ∈ Matrix.specialOrthogonalGroup (Fin 3) ℝ) (i j : Fin 3) :
  m (i + 1) (j + 1) * m (i + 2) (j + 2) - m (i + 1) (j + 2) * m (i + 2) (j + 1) = m i j
  := by
  have hadjugate : m.adjugate = m.transpose := by
    calc m.adjugate
        = m.adjugate * m * m.transpose := by rw [mul_assoc, mul_transpose_eq_one hm, mul_one]
      _ = m.transpose := by
          rw [Matrix.adjugate_mul, (Matrix.mem_specialOrthogonalGroup_iff.mp hm).2, one_smul,
            one_mul]
  rw [← show m.adjugate j i = m i j by rw [hadjugate, Matrix.transpose_apply],
    Matrix.adjugate_fin_three]
  fin_cases i, j <;>
    simp only [Fin.zero_eta, Fin.mk_one, Fin.reduceFinMk, Fin.reduceAdd, Matrix.of_apply,
      Matrix.cons_val', Matrix.cons_val_zero, Matrix.cons_val_one, Matrix.cons_val,
      Matrix.cons_val_fin_one] <;>
    ring

/-- All products are determined by those with one of the components, since the columns of a
rotation are of length one, perpendicular to each other and right-handed. -/
theorem products_mul (hm : m ∈ Matrix.specialOrthogonalGroup (Fin 3) ℝ) (k i j : Fin 4) :
  products m k i * products m k j = products m k k * products m i j
  := by
  have hrow := sum_mul_rows hm
  have hcolumn := sum_mul_columns hm
  have hcofactor := cofactor hm
  simp only [Fin.forall_fin_succ, Fin.succ_zero_eq_one, Fin.succ_one_eq_two, Fin.reduceAdd,
    Fin.reduceEq, if_true, if_false, IsEmpty.forall_iff, and_true] at hrow hcolumn hcofactor
  obtain ⟨⟨hr00, hr01, hr02⟩, ⟨-, hr11, hr12⟩, -, -, hr22⟩ := hrow
  obtain ⟨⟨hc00, hc01, hc02⟩, ⟨-, hc11, hc12⟩, -, -, hc22⟩ := hcolumn
  obtain ⟨⟨h00, h01, h02⟩, ⟨h10, h11, h12⟩, h20, h21, h22⟩ := hcofactor
  fin_cases k, i, j <;>
    simp only [products, Fin.zero_eta, Fin.mk_one, Fin.reduceFinMk, Matrix.of_apply,
      Matrix.cons_val', Matrix.cons_val_zero, Matrix.cons_val_one, Matrix.cons_val,
      Matrix.cons_val_fin_one] <;>
    linarith

/-- The components are the products with one of them, over that component. -/
theorem turns_of_row (hm : m ∈ Matrix.specialOrthogonalGroup (Fin 3) ℝ) {k : Fin 4}
    (hk : 0 < products m k k)
    (hq : ∀ i, q.components i = products m k i / (2 * √(products m k k))) :
  q.Turns m
  := by
  apply turns_of_products
  intro i j
  calc 4 * (q.components i * q.components j)
      = products m k i * products m k j / (√(products m k k) * √(products m k k)) := by
        rw [hq, hq]
        ring
    _ = products m i j := by
        rw [Real.mul_self_sqrt hk.le, products_mul hm, mul_div_cancel_left₀ _ hk.ne']

/-! The forms in which the components are written. -/

theorem quarter_div (d : ℝ) :
  0.25 / (0.5 / √d) = d / (2 * √d)
  := by
  rw [div_mul_eq_div_div_swap, Real.div_sqrt, div_div_eq_mul_div]
  norm_num
  ring

theorem quarter_mul (d : ℝ) :
  0.25 * (2.0 * √d) = d / (2 * √d)
  := by
  rw [div_mul_eq_div_div_swap, Real.div_sqrt]
  norm_num
  ring

theorem mul_half_div (x d : ℝ) :
  x * (0.5 / √d) = x / (2 * √d)
  := by
  rw [show (0.5 : ℝ) = 1 / 2 by norm_num, div_div, mul_one_div]

theorem div_two_mul (x d : ℝ) :
  x / (2.0 * √d) = x / (2 * √d)
  := by norm_num

/-- The axes of a rotation give a quaternion that turns as the rotation, whichever of its
components is found first. -/
theorem turns_ofAxes (hm : m ∈ Matrix.specialOrthogonalGroup (Fin 3) ℝ) :
  (@ofAxes ℝ realScalar (column m 0) (column m 1) (column m 2)).Turns m
  := by
  let := realScalar
  have hzero : (0.0 : ℝ) = 0 := by norm_num
  have hone : (1.0 : ℝ) = 1 := by norm_num
  have hw : (column m 0).x + (column m 1).y + (column m 2).z + 1.0 = products m 0 0 := by
    rw [hone, add_comm, ← add_assoc, ← add_assoc]
    rfl
  have hx : 1.0 + (column m 0).x - (column m 1).y - (column m 2).z = products m 1 1 := by
    rw [hone]
    rfl
  have hy : 1.0 + (column m 1).y - (column m 0).x - (column m 2).z = products m 2 2 := by
    rw [hone]
    rfl
  have hz : 1.0 + (column m 2).z - (column m 0).x - (column m 1).y = products m 3 3 := by
    rw [hone]
    rfl
  by_cases htrace : (0.0 : ℝ) < (column m 0).x + (column m 1).y + (column m 2).z
  · rw [ofAxes, if_pos htrace, hw]
    have hpos : 0 < products m 0 0 := by linarith
    apply turns_of_row (k := 0) hm hpos
    intro i
    fin_cases i
    · exact quarter_div _
    · exact mul_half_div _ _
    · exact mul_half_div _ _
    · exact mul_half_div _ _
  · rw [ofAxes, if_neg htrace, hx, hy, hz]
    have hnot := not_lt.mp htrace
    -- The largest of the other three, whose sum is at least three.
    split_ifs with hfirst hsecond
    · have hpos : 0 < products m 1 1 := by linarith
      apply turns_of_row (k := 1) hm hpos
      intro i
      fin_cases i
      · exact div_two_mul _ _
      · exact quarter_mul _
      · exact div_two_mul _ _
      · exact div_two_mul _ _
    · have hlt : (column m 0).x < (column m 1).y :=
        not_le.mp fun h => hfirst ⟨h, le_trans hsecond h⟩
      have hpos : 0 < products m 2 2 := by linarith
      apply turns_of_row (k := 2) hm hpos
      intro i
      fin_cases i
      · exact div_two_mul _ _
      · exact div_two_mul _ _
      · exact quarter_mul _
      · exact div_two_mul _ _
    · have hlt := not_le.mp hsecond
      have hlt' : (column m 0).x < (column m 2).z :=
        not_le.mp fun h => hfirst ⟨le_trans hlt.le h, h⟩
      have hpos : 0 < products m 3 3 := by linarith
      apply turns_of_row (k := 3) hm hpos
      intro i
      fin_cases i
      · exact div_two_mul _ _
      · exact div_two_mul _ _
      · exact div_two_mul _ _
      · exact quarter_mul _

end Quaternion

end ModelCar
