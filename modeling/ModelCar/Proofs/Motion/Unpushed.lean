import ModelCar.Proofs.Motion.Resting
import ModelCar.Proofs.Motion.Stages

/-!
# Resting and being pushed

The first stage finds the gravity `g` and the bias `m - e` of a resting car from the same
mean `m`, where `e` is gravity on the third axis.  So what the second stage takes for the
push of a car that goes on resting is `m - (m - e) - m / |m|`, which for a mean of length
one is `e - m`.  Its square is `2 - 2 |m.z|`, and it counts as no push only if the third
axis is nearly vertical.
-/

namespace ModelCar.Calibration

open Float.Model

variable {c : Calibration Float32 Float} {d : CalibrationData Float32}
  {s : Sample Float32} {n : Nat}

/-! ### The second stage -/

/-- A sample counts as a push. -/
def Pushes (d : CalibrationData Float32) (s : Sample Float32) : Prop :=
  (Precision.widen (smallestPush : Float32) : Float) ≤ (pushOf d s).lengthSq

instance (d : CalibrationData Float32) (s : Sample Float32) : Decidable (Pushes d s) :=
  inferInstanceAs (Decidable (_ ≤ _))

/-- Samples that are no push are not collected. -/
theorem ofList_unpushed (h : ¬ Pushes d s) (n : Nat) :
  (Tally.ofList .forward d (List.replicate n s) : Tally Float32 Float) = .empty
  := by
  induction n with
  | zero => rfl
  | succ n ih =>
      rw [List.replicate_succ', Tally.ofList_concat, ih]
      exact if_neg h

/-- The pushes are added up. -/
theorem ofList_pushed (h : Pushes d s) (n : Nat) :
  (Tally.ofList .forward d (List.replicate n s) : Tally Float32 Float).push =
    (pushOf d s).map fun x => sumOfCopies (Precision.widen x) n
  := by
  induction n with
  | zero => rfl
  | succ n ih =>
      unfold Pushes at h
      rw [List.replicate_succ', Tally.ofList_concat, Tally.add, if_pos h]
      simp only [ih]
      simp only [sumOfCopies_succ]
      rfl

/-- Nothing collected shows no direction. -/
theorem result_empty (d : CalibrationData Float32) :
  (Tally.empty : Tally Float32 Float).result? .forward d = none
  := by
  rw [result_forward_eq_none_iff]
  decide +kernel

theorem double_smallestSum :
  (smallestSum : Float).isFinite ∧ double smallestSum ≤ 2 ^ (-12 : ℤ)
  := by
  have h : (smallestSum : Float).toModel.unpack
      = .finite .positive 6044629098073146 (-79) (by decide) := rfl
  use rfl
  rw [double, h, value_positive]
  norm_num

theorem single_smallestPush :
  (smallestPush : Float32).isFinite ∧ single smallestPush = 10737419 * 2 ^ (-32 : ℤ)
  := by
  have h : (smallestPush : Float32).toModel.unpack
      = .finite .positive 10737419 (-32) (by decide) := rfl
  use rfl
  rw [single, h, value_positive]
  norm_num

/-- Whether a sample counts as a push is a comparison of real numbers. -/
theorem pushes_iff (h : ((pushOf d s).lengthSq : Float).isFinite) :
  Pushes d s ↔ 10737419 * 2 ^ (-32 : ℤ) ≤ double (pushOf d s).lengthSq
  := by
  obtain ⟨hf, he⟩ := single_smallestPush
  obtain ⟨hwf, hwe⟩ := double_widen hf
  rw [← he, ← hwe]
  exact double_le_iff hwf h

/-- A second stage without a push fails and leaves the data as they are. -/
theorem unpushed (h : ¬ Pushes c.data s) (hn : 0 < n) :
  ((List.replicate n s).foldl feed (c.collect .forward n)).status = .failed ∧
    ((List.replicate n s).foldl feed (c.collect .forward n)).data = c.data
  := by
  rw [foldl_feed_replicate c .forward hn, finish]
  simp only [collecting, collect, ofList_unpushed h, result_empty]
  exact ⟨trivial, trivial⟩

/-- A sum of copies of a vector is long enough if one of its coordinates is. -/
theorem smallestSum_le {p : Vector3 Float32} (hf : ∀ x ∈ p.toList, x.isFinite)
    (hle : ∀ x ∈ p.toList, |single x| ≤ 3 / 2)
    (hlong : ∃ x ∈ p.toList, 2 ^ (-6 : ℤ) ≤ |single x|) (hn : 0 < n) (hlt : n < 2 ^ 32) :
  let sum : Vector3 Float := p.map fun x => sumOfCopies (Precision.widen x) n
  ¬ sum.dot sum < smallestSum
  := by
  intro sum
  have hgrows : ∀ x ∈ p.toList, Grows (Precision.widen x) n := by
    intro x hx
    obtain ⟨hwf, hw⟩ := double_widen (hf x hx)
    apply grows hwf _ hlt
    rw [hw]
    exact (hle x hx).trans (by norm_num)
  have hmoderate : ∀ y ∈ sum.toList, Moderate y := by
    intro y hy
    obtain ⟨x, hx, rfl⟩ :=
      List.mem_map.mp (show y ∈ p.toList.map fun x => sumOfCopies (Precision.widen x) n from hy)
    exact (hgrows x hx).moderate hlt
  obtain ⟨hdot, hsquare⟩ := upTo_dot hmoderate
  obtain ⟨x, hx, hlong⟩ := hlong
  let y := sumOfCopies (Precision.widen x) n
  have hmem : y ∈ sum.toList :=
    List.mem_map_of_mem (f := fun x => sumOfCopies (Precision.widen x) n) hx
  have hy : 2 ^ (-6 : ℤ) ≤ |double y| := by
    rw [← (double_widen (hf x hx)).2] at hlong
    exact hlong.trans ((hgrows x hx).le_abs hn.ne')
  have hmin : 2 ^ (-12 : ℤ) ≤ double (y * y) := by
    apply (hmoderate y hmem).roundsTo_mul_self.1.ge_of_ge (representable_zpow (by decide))
    calc (2 : ℝ) ^ (-12 : ℤ) = 2 ^ (-6 : ℤ) * 2 ^ (-6 : ℤ) := by norm_num
      _ ≤ |double y| * |double y| := by gcongr
      _ = double y * double y := abs_mul_abs_self _
  obtain ⟨hsf, hs⟩ := double_smallestSum
  rw [double_lt_iff hdot.isFinite hsf, not_lt]
  exact hs.trans (hmin.trans (hsquare y hmem))

/-- A push has a coordinate that is long enough. -/
theorem exists_long (h : Pushes d s) (hf : ∀ x ∈ (pushOf d s).toList, x.isFinite)
    (hle : ∀ x ∈ (pushOf d s).toList, |single x| ≤ 3 / 2) :
  ∃ x ∈ (pushOf d s).toList, 2 ^ (-6 : ℤ) ≤ |single x|
  := by
  obtain ⟨hlf, hnear⟩ := lengthSq_near hf hle
  rw [pushes_iff hlf] at h
  by_contra hall
  push Not at hall
  rw [Vector3.forall_mem_toList] at hall
  obtain ⟨hx, hy, hz⟩ := hall
  have hsquare {r : ℝ} (hr : |r| < 2 ^ (-6 : ℤ)) : r * r ≤ 1 / 4096 := by
    rw [← abs_mul_abs_self r]
    calc |r| * |r| ≤ 2 ^ (-6 : ℤ) * 2 ^ (-6 : ℤ) := by gcongr
      _ = 1 / 4096 := by norm_num
  have hx := hsquare hx
  have hy := hsquare hy
  have hz := hsquare hz
  have hslip : slip = 1 / 2000000 := rfl
  have hlo := (abs_le.mp hnear).2
  norm_num at h
  linarith

/-- A second stage that is pushed succeeds. -/
theorem pushed (h : Pushes c.data s) (hf : ∀ x ∈ (pushOf c.data s).toList, x.isFinite)
    (hle : ∀ x ∈ (pushOf c.data s).toList, |single x| ≤ 3 / 2) (hn : 0 < n)
    (hlt : n < 2 ^ 32) :
  ((List.replicate n s).foldl feed (c.collect .forward n)).status = .done
  := by
  have hsum := smallestSum_le hf hle (exists_long h hf hle) hn hlt
  rw [foldl_feed_replicate c .forward hn, finish]
  split
  · rfl
  · rename_i hnone
    rw [show (c.collecting .forward n (List.replicate n s)).mode = .forward from rfl,
      result_forward_eq_none_iff] at hnone
    simp only [collecting, ofList_pushed h] at hnone
    cases hsum hnone

/-! ### The push of a car at rest -/

/-- An acceleration without a bias and gravity that are known up to a few slips. -/
theorem push_near {a b g : Float32} {β γ : ℝ} (ha : a.isFinite) (hb : Close (2 * slip) β b)
    (hg : Close (1 / 180000) γ g) (hfirst : |single a - β| ≤ 3)
    (hlast : |single a - β - γ| ≤ 3) :
  Close (1 / 125000) (single a - β - γ) (a - b - g)
  := by
  obtain ⟨hbf, hb⟩ := hb
  obtain ⟨hgf, hg⟩ := hg
  have hslip : slip = 1 / 2000000 := rfl
  rw [abs_le] at hb hg hfirst hlast
  obtain ⟨habf, hab⟩ := single_sub_near ha hbf (abs_le.mpr ⟨by linarith, by linarith⟩)
  rw [abs_le] at hab
  obtain ⟨hf, hsub⟩ := single_sub_near habf hgf (abs_le.mpr ⟨by linarith, by linarith⟩)
  use hf
  rw [abs_le] at hsub ⊢
  constructor <;> linarith

/-- What the second stage takes for the push of a car that goes on resting: the vertical
without the direction of gravity. -/
theorem pushOf_near (hs : Resting s) (hn : 0 < n) (hlt : n < 2 ^ 53)
    (d : CalibrationData Float32) :
  let p := pushOf (restedData d n s) s
  let a := s.acceleration
  Close (1 / 125000) (-single a.x) p.x ∧ Close (1 / 125000) (-single a.y) p.y ∧
    Close (1 / 125000) (expected (single a.z) - single a.z) p.z
  := by
  intro p a
  obtain ⟨⟨hbx, hby, hbz⟩, hgx, hgy, hgz⟩ := restedData_near hs hn hlt d
  have hle := hs.coordinate_le
  have hfinite := hs.acceleration
  rw [Vector3.forall_mem_toList] at hle
  rw [Vector3.isFinite_iff, Vector3.forall_mem_toList] at hfinite
  obtain ⟨hx, hy, hz⟩ := hle
  obtain ⟨hxf, hyf, hzf⟩ := hfinite
  have hrest {r : ℝ} (hr : |r| ≤ 100001 / 100000) : |r - r| ≤ 3 ∧ |r - r - r| ≤ 3 := by
    rw [sub_self, abs_zero, zero_sub, abs_neg]
    constructor <;> linarith
  have he := abs_expected_sub_le hz
  refine ⟨?_, ?_, ?_⟩
  · have h := push_near hxf hbx hgx (hrest hx).1 (hrest hx).2
    rwa [sub_self, zero_sub] at h
  · have h := push_near hyf hby hgy (hrest hy).1 (hrest hy).2
    rwa [sub_self, zero_sub] at h
  · have h := push_near hzf hbz hgz
    rw [sub_sub_cancel] at h
    apply h
    · rw [abs_le] at he hz ⊢
      constructor <;> linarith
    · linarith

/-- The square of the push of a car at rest. -/
theorem lengthSq_pushOf_near (hs : Resting s) (hn : 0 < n) (hlt : n < 2 ^ 53)
    (d : CalibrationData Float32) :
  let p := pushOf (restedData d n s) s
  (∀ x ∈ p.toList, x.isFinite) ∧ (∀ x ∈ p.toList, |single x| ≤ 3 / 2) ∧
    (p.lengthSq : Float).isFinite ∧
    |double p.lengthSq - (2 - 2 * |single s.acceleration.z|)| ≤ 1 / 12500
  := by
  intro p
  obtain ⟨hpx, hpy, hpz⟩ := pushOf_near hs hn hlt d
  have hle := hs.coordinate_le
  rw [Vector3.forall_mem_toList] at hle
  obtain ⟨hx, hy, hz⟩ := hle
  have he := (abs_expected_sub_le hz).trans (by norm_num : (1 : ℝ) ≤ 100001 / 100000)
  rw [← abs_neg] at hx hy
  obtain ⟨hf, hle, hlf, hl⟩ := lengthSq_of_close hpx hpy hpz hx hy he
  refine ⟨hf, hle, hlf, ?_⟩
  have hone := hs.length
  rw [neg_mul_neg, neg_mul_neg, expected_sub_mul_self] at hl
  rw [abs_le] at hone hl ⊢
  constructor <;> linarith

/-- The second stage is not refused after a first stage at rest. -/
theorem not_refuses_of_rested (hs : Resting s) (hn : 0 < n) (hlt : n < 2 ^ 53)
    (hd : c.data = restedData d n s) :
  ¬ c.Refuses .forward
  := by
  obtain ⟨-, hgx, hgy, hgz⟩ := restedData_near hs hn hlt d
  have hle := hs.coordinate_le
  rw [Vector3.forall_mem_toList] at hle
  obtain ⟨hx, hy, hz⟩ := hle
  obtain ⟨-, -, hlf, hl⟩ := lengthSq_of_close (hgx.mono (by norm_num)) (hgy.mono (by norm_num))
    (hgz.mono (by norm_num)) hx hy hz
  rintro ⟨-, hinvalid | hshort⟩
  · rw [hd] at hinvalid
    exact hinvalid rfl
  · rw [hd] at hshort
    replace hshort := (double_lt_iff hlf double_smallestLengthSq.1).mp hshort
    have hsmall := double_smallestLengthSq_le
    have hone := hs.length
    rw [abs_le] at hone hl
    linarith

/-! ### Both stages of a car at rest -/

/-- A stage that is started and then fed with as many copies of a sample as it asks for. -/
def runStage (c : Calibration Float32 Float) (mode : Mode) (samples : UInt32)
    (s : Sample Float32) : Calibration Float32 Float :=
  c.after (.start mode samples :: List.replicate samples.toNat (.feed s))

theorem after_feed (c : Calibration Float32 Float) (n : Nat) (s : Sample Float32) :
  c.after (List.replicate n (.feed s)) = (List.replicate n s).foldl feed c
  := by
  rw [after, ← List.map_replicate, List.foldl_map]
  rfl

theorem runStage_eq {mode : Mode} {samples : UInt32} (h : ¬ c.Refuses mode)
    (hne : samples ≠ 0) (s : Sample Float32) :
  c.runStage mode samples s =
    (List.replicate samples.toNat s).foldl feed (c.collect mode samples.toNat)
  := by
  rw [← after_feed, runStage, after, List.foldl_cons, perform_start, if_neg h, Mode.target,
    if_neg hne]
  rfl

/-- After a first stage of a car at rest, a second stage of the same car at rest fails, and
leaves the data as they are, exactly if the residue of the sample is not taken for a push.
It is not if the car stands nearly level; it is on a slope. -/
theorem resting_unpushed_iff (c : Calibration Float32 Float) (hs : Resting s)
    {samples more : UInt32} (hsamples : samples ≠ 0) (hmore : more ≠ 0) :
  let full := c.runStage .full samples s
  let forward := full.runStage .forward more s
  full.status = .done ∧ ¬ full.Refuses .forward ∧
    (forward.status = .failed ∧ forward.data = full.data ↔ ¬ Pushes full.data s) ∧
    (Pushes full.data s → forward.status = .done) ∧
    (9988 / 10000 ≤ |single s.acceleration.z| → ¬ Pushes full.data s) ∧
    (|single s.acceleration.z| ≤ 9987 / 10000 → Pushes full.data s)
  := by
  intro full forward
  have hpos : 0 < samples.toNat := UInt32.pos_iff_ne_zero.mpr hsamples
  have hmorepos : 0 < more.toNat := UInt32.pos_iff_ne_zero.mpr hmore
  have hlt : samples.toNat < 2 ^ 53 := samples.toNat_lt.trans (by decide)
  have hstart : ¬ c.Refuses .full := by
    rintro ⟨⟨⟩, -⟩
  have hfull := runStage_eq hstart hsamples s
  obtain ⟨hdone, hdata⟩ := rested c hs.acceleration hs.rate hpos hlt
  rw [← hfull] at hdone hdata
  have hstart : ¬ full.Refuses .forward := not_refuses_of_rested hs hpos hlt hdata
  have hforward : forward = _ := runStage_eq hstart hmore s
  obtain ⟨hf, hle, hlf, hnear⟩ := lengthSq_pushOf_near hs hpos hlt c.data
  rw [← hdata] at hf hle hlf hnear
  have hpushed : Pushes full.data s → forward.status = .done := by
    intro h
    rw [hforward]
    exact pushed h hf hle hmorepos more.toNat_lt
  refine ⟨hdone, hstart, ⟨?_, ?_⟩, hpushed, ?_, ?_⟩
  · rintro ⟨hfailed, -⟩ h
    cases hfailed.symm.trans (hpushed h)
  · intro h
    rw [hforward]
    exact unpushed h hmorepos
  · intro hz
    rw [pushes_iff hlf, not_le]
    rw [abs_le] at hnear
    norm_num
    linarith
  · intro hz
    rw [pushes_iff hlf]
    rw [abs_le] at hnear
    norm_num
    linarith

/-- A sample of a car that leans about the second axis. -/
def leaning (x z : Float32) : Sample Float32 :=
  ⟨⟨x, 0.0, z⟩, .zero⟩

theorem resting_leaning {x z : Float32} (hx : x.isFinite) (hz : z.isFinite)
    (h : |single x * single x + single z * single z - 1| ≤ 1 / 1000000) :
  Resting (leaning x z)
  := by
  have hzero : (0.0 : Float32).isFinite := rfl
  have hrate : (Vector3.zero : Vector3 Float32).isFinite := by decide +kernel
  constructor
  · rw [Vector3.isFinite_iff, Vector3.forall_mem_toList]
    exact ⟨hx, hzero, hz⟩
  · exact hrate
  · simp only [leaning, single_zero, mul_zero, add_zero]
    exact h

/-- A car that leans a little is not pushed as long as it rests. -/
theorem unpushed_leaning_little :
  let full := (unset : Calibration Float32 Float).runStage .full 3 (leaning 0.04 0.9992)
  let forward := full.runStage .forward 2 (leaning 0.04 0.9992)
  full.status = .done ∧ forward.status = .failed ∧ forward.data = full.data
  := by
  intro full forward
  have hx : (0.04 : Float32).toModel.unpack
      = .finite .positive 10737418 (-28) (by decide) := rfl
  have hz : (0.9992 : Float32).toModel.unpack
      = .finite .positive 16763794 (-24) (by decide) := rfl
  have hs : Resting (leaning 0.04 0.9992) := by
    apply resting_leaning rfl rfl
    simp only [single, hx, hz, value_positive]
    norm_num [abs_le]
  have hlevel : 9988 / 10000 ≤ |single (0.9992 : Float32)| := by
    rw [single, hz, value_positive]
    norm_num [abs_of_pos]
  obtain ⟨hdone, -, hiff, -, hunpushed, -⟩ :=
    @resting_unpushed_iff (leaning 0.04 0.9992) unset hs 3 2 (by decide) (by decide)
  exact ⟨hdone, hiff.mpr (hunpushed hlevel)⟩

/-- A car that rests on a slope of five degrees is taken to be pushed, and so a forward
direction is found. -/
theorem pushed_on_slope :
  let full := (unset : Calibration Float32 Float).runStage .full 1 (leaning 0.0871557 0.9961947)
  let forward := full.runStage .forward 1 (leaning 0.0871557 0.9961947)
  Resting (leaning 0.0871557 0.9961947) ∧ full.status = .done ∧ forward.status = .done ∧
    forward.data.forward ≠ full.data.forward
  := by
  have hx : (0.0871557 : Float32).toModel.unpack
      = .finite .positive 11697840 (-27) (by decide) := rfl
  have hz : (0.9961947 : Float32).toModel.unpack
      = .finite .positive 16713374 (-24) (by decide) := rfl
  constructor
  · apply resting_leaning rfl rfl
    simp only [single, hx, hz, value_positive]
    norm_num [abs_le]
  · decide +kernel

end ModelCar.Calibration
