import ModelCar.Proofs.Motion.Constant

/-!
# The first stage of a car at rest

Copies of one sample have this sample as their mean.  If it has length one, the first stage
finds the sample itself as the direction of gravity, and the sample without gravity on the
third axis as the bias, both up to a few rounding errors.
-/

namespace ModelCar

open Float.Model

/-! ### Errors of lengths and directions -/

theorem mul_self_bounds {r : ℝ} (h : |r| ≤ 3 / 2) :
  0 ≤ r * r ∧ r * r ≤ 9 / 4
  := by
  obtain ⟨hlo, hhi⟩ := abs_le.mp h
  exact ⟨mul_self_nonneg r, by nlinarith⟩

/-- The square of the length of a vector is computed up to five slips. -/
theorem dot_near {v : Vector3 Float} (hf : ∀ x ∈ v.toList, x.isFinite)
    (hv : ∀ x ∈ v.toList, |double x| ≤ 3 / 2) :
  (v.dot v).isFinite ∧
    |double (v.dot v) - (double v.x * double v.x + double v.y * double v.y
      + double v.z * double v.z)| ≤ 5 * slip
  := by
  rw [Vector3.forall_mem_toList] at hf hv
  obtain ⟨hxf, hyf, hzf⟩ := hf
  obtain ⟨hx, hy, hz⟩ := hv
  have hslip : slip = 1 / 2000000 := rfl
  obtain ⟨hx0, hx1⟩ := mul_self_bounds hx
  obtain ⟨hy0, hy1⟩ := mul_self_bounds hy
  obtain ⟨hz0, hz1⟩ := mul_self_bounds hz
  obtain ⟨hxxf, hxx⟩ := double_mul_near hxf hxf (abs_le.mpr ⟨by linarith, by linarith⟩)
  obtain ⟨hyyf, hyy⟩ := double_mul_near hyf hyf (abs_le.mpr ⟨by linarith, by linarith⟩)
  obtain ⟨hzzf, hzz⟩ := double_mul_near hzf hzf (abs_le.mpr ⟨by linarith, by linarith⟩)
  rw [abs_le] at hxx hyy hzz
  obtain ⟨hxyf, hxy⟩ := double_add_near hxxf hyyf (abs_le.mpr ⟨by linarith, by linarith⟩)
  rw [abs_le] at hxy
  obtain ⟨hf, hsum⟩ := double_add_near hxyf hzzf (abs_le.mpr ⟨by linarith, by linarith⟩)
  rw [abs_le] at hsum
  use hf
  rw [abs_le]
  constructor
  · show _ ≤ double (v.x * v.x + v.y * v.y + v.z * v.z) - _
    linarith
  · show double (v.x * v.x + v.y * v.y + v.z * v.z) - _ ≤ _
    linarith

theorem lengthSq_near {v : Vector3 Float32} (hf : ∀ x ∈ v.toList, x.isFinite)
    (hv : ∀ x ∈ v.toList, |single x| ≤ 3 / 2) :
  (v.lengthSq : Float).isFinite ∧
    |double v.lengthSq - (single v.x * single v.x + single v.y * single v.y
      + single v.z * single v.z)| ≤ 5 * slip
  := by
  rw [Vector3.forall_mem_toList] at hf hv
  obtain ⟨hx, hxe⟩ := double_widen hf.1
  obtain ⟨hy, hye⟩ := double_widen hf.2.1
  obtain ⟨hz, hze⟩ := double_widen hf.2.2
  rw [← hxe, ← hye, ← hze] at hv ⊢
  apply dot_near
  · rw [Vector3.forall_mem_toList]
    exact ⟨hx, hy, hz⟩
  · rw [Vector3.forall_mem_toList]
    exact hv

/-- The square root of a number close to one is at least as close to one. -/
theorem abs_sqrt_sub_one_le {t : ℝ} (h : 0 ≤ t) :
  |√t - 1| ≤ |t - 1|
  := by
  have hs := Real.sqrt_nonneg t
  have hfactor : t - 1 = (√t - 1) * (√t + 1) := by
    rw [← Real.sq_sqrt h]
    ring_nf
    rw [Real.sqrt_sq hs]
  rw [hfactor, abs_mul, abs_of_nonneg (by linarith : 0 ≤ √t + 1)]
  exact le_mul_of_one_le_right (abs_nonneg _) (by linarith)

/-- Dividing by a number close to one makes little difference. -/
theorem abs_div_sub_le {r d : ℝ} (hr : |r| ≤ 100001 / 100000) (hd : |d - 1| ≤ 1 / 250000) :
  |r / d - r| ≤ 1 / 240000
  := by
  obtain ⟨hlo, hhi⟩ := abs_le.mp hd
  have hpos : 0 < d := by linarith
  have heq : r / d - r = r * (1 - d) / d := by
    field_simp
  rw [heq, abs_div, abs_mul, abs_of_pos hpos, div_le_iff₀ hpos, abs_sub_comm]
  calc |r| * |d - 1| ≤ 100001 / 100000 * (1 / 250000) := by gcongr
    _ ≤ 1 / 240000 * d := by linarith

section
variable {m : Vector3 Float}

/-- A vector has length one, but for the rounding of its coordinates. -/
def OfLengthOne (m : Vector3 Float) : Prop :=
  |double m.x * double m.x + double m.y * double m.y + double m.z * double m.z - 1|
    ≤ 1 / 1000000

theorem OfLengthOne.coordinate_le (h : OfLengthOne m) :
  ∀ x ∈ m.toList, |double x| ≤ 100001 / 100000
  := by
  obtain ⟨hlo, hhi⟩ := abs_le.mp h
  have hx := mul_self_nonneg (double m.x)
  have hy := mul_self_nonneg (double m.y)
  have hz := mul_self_nonneg (double m.z)
  rw [Vector3.forall_mem_toList]
  refine ⟨?_, ?_, ?_⟩
  · apply abs_le_of_sq_le_sq _ (by norm_num)
    nlinarith
  · apply abs_le_of_sq_le_sq _ (by norm_num)
    nlinarith
  · apply abs_le_of_sq_le_sq _ (by norm_num)
    nlinarith

/-- The direction of a vector of length one is hardly different from it. -/
theorem over_near (hf : ∀ x ∈ m.toList, x.isFinite) (h : OfLengthOne m) :
  ∀ x ∈ m.toList, (narrow (x / (m.dot m).sqrt)).isFinite ∧
    |single (narrow (x / (m.dot m).sqrt)) - double x| ≤ 1 / 180000
  := by
  have hslip : slip = 1 / 2000000 := rfl
  have hx := h.coordinate_le
  obtain ⟨hdotf, hdot⟩ := dot_near hf fun x hm => (hx x hm).trans (by norm_num)
  have hone : |double (m.dot m) - 1| ≤ 1 / 1000000 + 5 * slip := by
    unfold OfLengthOne at h
    rw [abs_le] at h hdot ⊢
    constructor <;> linarith
  have hnonneg : 0 ≤ double (m.dot m) := by
    linarith [(abs_le.mp hone).1]
  have hroot := (abs_sqrt_sub_one_le hnonneg).trans hone
  obtain ⟨hsqrtf, hsqrt⟩ := double_sqrt_near hdotf hnonneg (by linarith [(abs_le.mp hroot).2])
  have hlen : |double (m.dot m).sqrt - 1| ≤ 1 / 250000 := by
    rw [abs_le] at hroot hsqrt ⊢
    constructor <;> linarith
  intro x hm
  have hdiv := abs_div_sub_le (hx x hm) hlen
  have hxm := abs_le.mp (hx x hm)
  rw [abs_le] at hdiv hlen
  obtain ⟨hqf, hq⟩ := double_div_near (hf x hm) hsqrtf (by linarith)
    (abs_le.mpr ⟨by linarith, by linarith⟩)
  rw [abs_le] at hq
  obtain ⟨hnf, hn⟩ := single_narrow_near hqf (abs_le.mpr ⟨by linarith, by linarith⟩)
  use hnf
  rw [abs_le] at hn ⊢
  constructor <;> linarith

end

/-! ### Vectors that are known up to an error -/

/-- A number in single precision that is close to a real one. -/
def Close (ε r : ℝ) (x : Float32) : Prop :=
  x.isFinite ∧ |single x - r| ≤ ε

theorem Close.mono {ε δ r : ℝ} {x : Float32} (h : Close ε r x) (hle : ε ≤ δ) :
  Close δ r x
  := ⟨h.1, h.2.trans hle⟩

theorem Close.le_three_halves {r : ℝ} {x : Float32} (h : Close (1 / 125000) r x)
    (hr : |r| ≤ 100001 / 100000) :
  |single x| ≤ 3 / 2
  := by
  obtain ⟨-, h⟩ := h
  rw [abs_le] at h hr ⊢
  constructor <;> linarith

/-- The square of a number that is known up to a small error. -/
theorem Close.mul_self {r : ℝ} {x : Float32} (h : Close (1 / 125000) r x)
    (hr : |r| ≤ 100001 / 100000) :
  |single x * single x - r * r| ≤ 1 / 60000
  := by
  obtain ⟨-, h⟩ := h
  have hsum : |single x + r| ≤ 201 / 100 := by
    rw [abs_le] at h hr ⊢
    constructor <;> linarith
  calc |single x * single x - r * r| = |single x - r| * |single x + r| := by
        rw [← abs_mul]
        ring_nf
    _ ≤ 1 / 125000 * (201 / 100) := by gcongr
    _ ≤ 1 / 60000 := by norm_num

/-- So is the square of the length of a vector. -/
theorem lengthSq_of_close {v : Vector3 Float32} {x y z : ℝ} (hvx : Close (1 / 125000) x v.x)
    (hvy : Close (1 / 125000) y v.y) (hvz : Close (1 / 125000) z v.z)
    (hx : |x| ≤ 100001 / 100000) (hy : |y| ≤ 100001 / 100000) (hz : |z| ≤ 100001 / 100000) :
  (∀ c ∈ v.toList, c.isFinite) ∧ (∀ c ∈ v.toList, |single c| ≤ 3 / 2) ∧
    (v.lengthSq : Float).isFinite ∧
    |double v.lengthSq - (x * x + y * y + z * z)| ≤ 1 / 18000
  := by
  have hfinite : ∀ c ∈ v.toList, c.isFinite := by
    rw [Vector3.forall_mem_toList]
    exact ⟨hvx.1, hvy.1, hvz.1⟩
  have hle : ∀ c ∈ v.toList, |single c| ≤ 3 / 2 := by
    rw [Vector3.forall_mem_toList]
    exact ⟨hvx.le_three_halves hx, hvy.le_three_halves hy, hvz.le_three_halves hz⟩
  obtain ⟨hlf, hl⟩ := lengthSq_near hfinite hle
  refine ⟨hfinite, hle, hlf, ?_⟩
  have hxx := hvx.mul_self hx
  have hyy := hvy.mul_self hy
  have hzz := hvz.mul_self hz
  have hslip : slip = 1 / 2000000 := rfl
  rw [abs_le] at *
  constructor <;> linarith

namespace Calibration

/-! ### The first stage -/

/-- A sample of a car at rest: the acceleration has length one, but for rounding, and the
gyroscope shows whatever it shows at rest. -/
structure Resting (s : Sample Float32) : Prop where
  acceleration : s.acceleration.isFinite
  rate : s.rate.isFinite
  length : |single s.acceleration.x * single s.acceleration.x
      + single s.acceleration.y * single s.acceleration.y
      + single s.acceleration.z * single s.acceleration.z - 1| ≤ 1 / 1000000

variable {c : Calibration Float32 Float} {d : CalibrationData Float32}
  {s : Sample Float32} {n : Nat}

/-- A coordinate that stays the same has itself as its mean, and does not vary. -/
theorem moments_replicate (p : Sample Float32 → Float32) (hp : (p s).isFinite) (hn : 0 < n)
    (hlt : n < 2 ^ 53) {limit : Float} (hl : limit.isFinite) (h0 : 0 ≤ double limit) :
  let m := Moments.ofList ((List.replicate n s).map fun s => (Precision.widen (p s) : Float))
  m.mean.isFinite ∧ double m.mean = single (p s) ∧ ¬ limit < m.variance
  := by
  intro m
  have hm : m = Moments.ofList (List.replicate n (widen (p s))) := by
    simp only [m, List.map_replicate]
    rfl
  obtain ⟨⟨hmean, heq⟩, -⟩ := Moments.ofList_replicate (moderate_widen hp) hn hlt
  obtain ⟨hv, hv0⟩ := Moments.variance_replicate (moderate_widen hp) hn hlt
  rw [hm]
  refine ⟨hmean.isFinite, heq.trans (double_widen hp).2, ?_⟩
  rw [double_lt_iff hl hv, hv0]
  exact not_lt.mpr h0

/-- So does a vector. -/
theorem axes_replicate (p : Sample Float32 → Vector3 Float32) (hp : (p s).isFinite)
    (hn : 0 < n) (hlt : n < 2 ^ 53) {limit : Float} (hl : limit.isFinite)
    (h0 : 0 ≤ double limit) :
  let m : Vector3 (Moments Float) := axes p (List.replicate n s)
  (∀ x ∈ (means m).toList, x.isFinite) ∧ double (means m).x = single (p s).x ∧
    double (means m).y = single (p s).y ∧ double (means m).z = single (p s).z ∧
    ¬ varies limit m
  := by
  intro m
  rw [Vector3.isFinite_iff, Vector3.forall_mem_toList] at hp
  obtain ⟨hx, hy, hz⟩ := hp
  obtain ⟨hxf, hxe, hxv⟩ := moments_replicate (fun s => (p s).x) hx hn hlt hl h0
  obtain ⟨hyf, hye, hyv⟩ := moments_replicate (fun s => (p s).y) hy hn hlt hl h0
  obtain ⟨hzf, hze, hzv⟩ := moments_replicate (fun s => (p s).z) hz hn hlt hl h0
  refine ⟨?_, hxe, hye, hze, ?_⟩
  · rw [Vector3.forall_mem_toList]
    exact ⟨hxf, hyf, hzf⟩
  · simp only [varies, Vector3.any, Bool.or_eq_true, decide_eq_true_eq, not_or]
    exact ⟨⟨hxv, hyv⟩, hzv⟩

theorem double_rateVarianceLimit :
  (rateVarianceLimit : Float).isFinite ∧ 0 ≤ double rateVarianceLimit
  := by
  have h : (rateVarianceLimit : Float).toModel.unpack
      = .finite .positive (2 ^ 52) (-53) (by decide) := rfl
  use rfl
  rw [double, h, value_positive]
  positivity

theorem double_accelerationVarianceLimit :
  (accelerationVarianceLimit : Float).isFinite ∧ 0 ≤ double accelerationVarianceLimit
  := by
  have h : (accelerationVarianceLimit : Float).toModel.unpack
      = .finite .positive 5764607523034235 (-59) (by decide) := rfl
  use rfl
  rw [double, h, value_positive]
  positivity

/-- The mean acceleration of copies of a sample. -/
def restMean (n : Nat) (s : Sample Float32) : Vector3 Float :=
  means (axes Sample.acceleration (List.replicate n s))

/-- The data that a first stage finds from copies of a sample. -/
def restedData (d : CalibrationData Float32) (n : Nat) (s : Sample Float32) :
    CalibrationData Float32 :=
  restData (withRate Float d (List.replicate n s)) (restMean n s)

/-- A stage that takes in as many copies of a sample as it asks for ends with the last. -/
theorem foldl_feed_replicate (c : Calibration Float32 Float) (mode : Mode) (hn : 0 < n)
    (s : Sample Float32) :
  (List.replicate n s).foldl feed (c.collect mode n) =
    (c.collecting mode n (List.replicate n s)).finish
  := by
  rw [foldl_feed c mode hn, List.length_replicate, if_neg (lt_irrefl n), List.take_replicate,
    min_self]

/-- A first stage that takes in copies of one sample succeeds. -/
theorem rested (c : Calibration Float32 Float) (ha : s.acceleration.isFinite)
    (hr : s.rate.isFinite) (hn : 0 < n) (hlt : n < 2 ^ 53) :
  ((List.replicate n s).foldl feed (c.collect .full n)).status = .done ∧
    ((List.replicate n s).foldl feed (c.collect .full n)).data = restedData c.data n s
  := by
  obtain ⟨hrl, hr0⟩ := double_rateVarianceLimit
  obtain ⟨hal, ha0⟩ := double_accelerationVarianceLimit
  obtain ⟨-, -, -, -, hrate⟩ := axes_replicate Sample.rate hr hn hlt hrl hr0
  obtain ⟨-, -, -, -, hacceleration⟩ := axes_replicate Sample.acceleration ha hn hlt hal ha0
  have hresult : (Tally.ofList .full c.data (List.replicate n s) : Tally Float32 Float).result?
      .full c.data = some (restedData c.data n s) := by
    simp only [Tally.result?, rate_ofList (by decide : Mode.full ≠ .forward),
      acceleration_ofList]
    rw [if_neg (not_or.mpr ⟨hrate, hacceleration⟩)]
    rfl
  rw [foldl_feed_replicate c .full hn, finish]
  simp only [collecting, collect, hresult]
  exact ⟨trivial, trivial⟩

/-! ### What is found -/

/-- The vertical part of gravity that is expected for a reading of the third axis. -/
noncomputable def expected (z : ℝ) : ℝ :=
  if 0 ≤ z then 1 else -1

theorem abs_expected_sub_le {z : ℝ} (h : |z| ≤ 100001 / 100000) :
  |expected z - z| ≤ 1
  := by
  obtain ⟨hlo, hhi⟩ := abs_le.mp h
  rw [expected, abs_le]
  split
  · constructor <;> linarith
  · constructor <;> linarith

/-- The square of the distance between a vertical and any direction of length one. -/
theorem expected_sub_mul_self (z : ℝ) :
  (expected z - z) * (expected z - z) = 1 - 2 * |z| + z * z
  := by
  rw [expected]
  split
  · rename_i h
    rw [abs_of_nonneg h]
    ring
  · rename_i h
    rw [abs_of_neg (not_le.mp h)]
    ring

theorem Resting.ofLengthOne (hs : Resting s) (hn : 0 < n) (hlt : n < 2 ^ 53) :
  (∀ x ∈ (restMean n s).toList, x.isFinite) ∧
    double (restMean n s).x = single s.acceleration.x ∧
    double (restMean n s).y = single s.acceleration.y ∧
    double (restMean n s).z = single s.acceleration.z ∧ OfLengthOne (restMean n s)
  := by
  obtain ⟨hal, ha0⟩ := double_accelerationVarianceLimit
  obtain ⟨hf, hx, hy, hz, -⟩ :=
    axes_replicate Sample.acceleration hs.acceleration hn hlt hal ha0
  refine ⟨hf, hx, hy, hz, ?_⟩
  unfold OfLengthOne restMean
  rw [hx, hy, hz]
  exact hs.length

theorem Resting.coordinate_le (hs : Resting s) :
  ∀ x ∈ s.acceleration.toList, |single x| ≤ 100001 / 100000
  := by
  obtain ⟨-, hx, hy, hz, hone⟩ := hs.ofLengthOne one_pos (by decide)
  have h := hone.coordinate_le
  rw [Vector3.forall_mem_toList] at h ⊢
  rwa [hx, hy, hz] at h

theorem double_smallestLengthSq_le :
  double Vector3.smallestLengthSq ≤ 1 / 2
  := by
  have h : (Vector3.smallestLengthSq : Float).toModel.unpack
      = .finite .positive 4722366482869645 (-72) (by decide) := rfl
  rw [double, h, value_positive]
  norm_num

/-- The bias on the third axis, up to two slips. -/
theorem bias_near {mean : Vector3 Float} (hf : mean.z.isFinite)
    (h : |double mean.z| ≤ 100001 / 100000) :
  (narrow (mean.z - (expectedGravity mean).z)).isFinite ∧
    |single (narrow (mean.z - (expectedGravity mean).z))
      - (double mean.z - expected (double mean.z))| ≤ 2 * slip
  := by
  have hslip : slip = 1 / 2000000 := rfl
  obtain ⟨hg, hge⟩ := double_expectedGravity hf
  have hge : double (expectedGravity mean).z = expected (double mean.z) := hge
  have he := abs_expected_sub_le h
  rw [abs_le] at he
  rw [← hge] at he ⊢
  obtain ⟨hsf, hs⟩ := double_sub_near hf hg.isFinite (abs_le.mpr ⟨by linarith, by linarith⟩)
  rw [abs_le] at hs
  obtain ⟨hnf, hnarrow⟩ := single_narrow_near hsf (abs_le.mpr ⟨by linarith, by linarith⟩)
  use hnf
  rw [abs_le] at hnarrow ⊢
  constructor <;> linarith

/-- The data that are found from copies of a sample at rest: the bias is the sample without
the expected gravity, the direction of gravity is the sample. -/
theorem restedData_near (hs : Resting s) (hn : 0 < n) (hlt : n < 2 ^ 53)
    (d : CalibrationData Float32) :
  let found := restedData d n s
  let a := s.acceleration
  (Close (2 * slip) (single a.x) found.accelerationBias.x ∧
    Close (2 * slip) (single a.y) found.accelerationBias.y ∧
    Close (2 * slip) (single a.z - expected (single a.z)) found.accelerationBias.z) ∧
  Close (1 / 180000) (single a.x) found.gravity.x ∧
    Close (1 / 180000) (single a.y) found.gravity.y ∧
    Close (1 / 180000) (single a.z) found.gravity.z
  := by
  intro found a
  have hslip : slip = 1 / 2000000 := rfl
  obtain ⟨hf, hx, hy, hz, hone⟩ := hs.ofLengthOne hn hlt
  have hle := hone.coordinate_le
  have hover := over_near hf hone
  obtain ⟨hdotf, hdot⟩ := dot_near hf fun x hm => (hle x hm).trans (by norm_num)
  have hlong : Vector3.smallestLengthSq ≤ (restMean n s).dot (restMean n s) := by
    rw [double_le_iff double_smallestLengthSq.1 hdotf]
    have hsmall := double_smallestLengthSq_le
    unfold OfLengthOne at hone
    rw [abs_le] at hone hdot
    linarith
  have hgravity : found.gravity =
      (restMean n s).over (Scalar.sqrt ((restMean n s).dot (restMean n s))) := by
    simp only [found, restedData, restData]
    exact if_pos hlong
  rw [Vector3.forall_mem_toList] at hf hle hover
  have hnarrow {x : Float} (hxf : x.isFinite) (hxle : |double x| ≤ 100001 / 100000) :
      Close (2 * slip) (double x) (narrow x) := by
    obtain ⟨hnf, hnear⟩ := single_narrow_near hxf (hxle.trans (by norm_num))
    exact ⟨hnf, hnear.trans (by linarith)⟩
  rw [hgravity, ← hx, ← hy, ← hz]
  exact ⟨⟨hnarrow hf.1 hle.1, hnarrow hf.2.1 hle.2.1, bias_near hf.2.2 hle.2.2⟩, hover⟩

end Calibration

end ModelCar
