import ModelCar.Proofs.Motion.Calibration
import ModelCar.Proofs.Motion.Direction
import ModelCar.Proofs.Motion.Session
import ModelCar.Proofs.Number.Single
import ModelCar.Proofs.Record.Reading

/-!
# Calibration at rest

A first stage that succeeds on finite samples has found finite data, however large the
samples are, and so its data can be stored and read again.  They are believed then if the
biases are within the limits, which the stage itself does not look at.
-/

namespace ModelCar

open Float.Model

namespace Calibration

/-! ### Gravity on the third axis -/

/-- Gravity is expected upwards or downwards, whichever is nearer. -/
theorem double_expectedGravity {mean : Vector3 Float} (hz : mean.z.isFinite) :
  Moderate (expectedGravity mean).z ∧
    double (expectedGravity mean).z = if 0 ≤ double mean.z then 1 else -1
  := by
  obtain ⟨hzero, h0⟩ := double_zero
  have hle : (0.0 : Float) ≤ mean.z ↔ 0 ≤ double mean.z := by
    rw [double_le_iff hzero hz, h0]
  rw [expectedGravity]
  by_cases h : 0 ≤ double mean.z
  · obtain ⟨hone, h1⟩ := double_one
    rw [if_pos h, if_pos (hle.mpr h)]
    exact ⟨moderate_of_abs_eq_one hone (by rw [h1, abs_one]), h1⟩
  · obtain ⟨hone, h1⟩ := double_neg_one
    rw [if_neg h, if_neg (mt hle.mp h)]
    exact ⟨moderate_of_abs_eq_one hone (by rw [h1, abs_neg, abs_one]), h1⟩

/-- The bias on the third axis is what is left without gravity. -/
theorem roundsTo_sub_expectedGravity {mean : Vector3 Float} (hz : Moderate mean.z) :
  RoundsTo (double mean.z - if 0 ≤ double mean.z then 1 else -1)
    (mean.z - (expectedGravity mean).z)
  := by
  obtain ⟨hg, h⟩ := double_expectedGravity hz.isFinite
  rw [← h]
  exact roundsTo_sub hz.isFinite hg.isFinite (hz.abs_sub_le hg)

theorem moderate_sub_expectedGravity {mean : Vector3 Float} (hz : Moderate mean.z) :
  Moderate (mean.z - (expectedGravity mean).z)
  := by
  obtain ⟨hg, h⟩ := double_expectedGravity hz.isFinite
  have hr := roundsTo_sub_expectedGravity hz
  rw [← h] at hr
  have hrep := (representable_double (expectedGravity mean).z).neg
  have habs : |-double (expectedGravity mean).z| ≤ maxValue .binary32 := by
    rw [abs_neg]
    exact hg.abs_le
  use hr.isFinite
  apply (ordConnected_abs_le _).uIcc_subset habs hz.abs_le
  apply hr.mem_uIcc (representable_double mean.z) hrep
  rw [Set.mem_uIcc, h]
  by_cases hpos : 0 ≤ double mean.z
  · left
    rw [if_pos hpos]
    exact ⟨by linarith, by linarith⟩
  · right
    rw [if_neg hpos]
    exact ⟨by linarith, by linarith⟩

/-! ### What is found at rest -/

theorem isFinite_restData {d : CalibrationData Float32} {mean : Vector3 Float}
    (hrate : d.rateBias.isFinite) (hgravity : d.gravity.isFinite)
    (hforward : d.forward.isFinite) (hmean : ∀ x ∈ mean.toList, Moderate x) :
  (restData d mean).isFinite
  := by
  have hbias : (restData d mean).accelerationBias.isFinite := by
    rw [Vector3.isFinite_iff, Vector3.forall_mem_toList]
    rw [Vector3.forall_mem_toList] at hmean
    obtain ⟨hx, hy, hz⟩ := hmean
    exact ⟨hx.rounds_narrow.isFinite, hy.rounds_narrow.isFinite,
      (moderate_sub_expectedGravity hz).rounds_narrow.isFinite⟩
  have hdirection : (restData d mean).gravity.isFinite := by
    simp only [restData]
    split
    · rename_i h
      exact isFinite_over hmean h
    · exact hgravity
  simp only [CalibrationData.isFinite, hbias, hdirection, Bool.and_true, Bool.and_eq_true]
  exact ⟨hrate, hforward⟩

variable {mode : Mode} {fed : List (Sample Float32)}

/-- The mean of a coordinate lies in every interval that holds this coordinate of all
samples. -/
theorem mean_widen {S : Set ℝ} (hS : S.OrdConnected) (hne : fed ≠ [])
    (hlen : fed.length < 2 ^ 53) {p : Sample Float32 → Float32}
    (hp : ∀ s ∈ fed, (p s).isFinite ∧ single (p s) ∈ S) :
  Moderate (Moments.ofList (fed.map fun s => (Precision.widen (p s) : Float))).mean ∧
    double (Moments.ofList (fed.map fun s => (Precision.widen (p s) : Float))).mean ∈ S
  := by
  apply Moments.mean_ofList hS
  · rwa [ne_eq, List.map_eq_nil_iff]
  · rwa [List.length_map]
  · intro x hx
    obtain ⟨s, hs, rfl⟩ := List.mem_map.mp hx
    obtain ⟨hfinite, hmem⟩ := hp s hs
    use moderate_widen hfinite
    show double (widen (p s)) ∈ S
    rwa [(double_widen hfinite).2]

theorem moderate_means (hne : fed ≠ []) (hlen : fed.length < 2 ^ 53)
    {p : Sample Float32 → Vector3 Float32} (hp : ∀ s ∈ fed, (p s).isFinite) :
  ∀ x ∈ (means (axes p fed)).toList, Moderate x
  := by
  simp only [Vector3.isFinite_iff, Vector3.forall_mem_toList] at hp
  rw [Vector3.forall_mem_toList]
  have hall := Set.ordConnected_univ (α := ℝ)
  exact ⟨(mean_widen hall hne hlen fun s hs => ⟨(hp s hs).1, trivial⟩).1,
    (mean_widen hall hne hlen fun s hs => ⟨(hp s hs).2.1, trivial⟩).1,
    (mean_widen hall hne hlen fun s hs => ⟨(hp s hs).2.2, trivial⟩).1⟩

/-- Finite samples at rest lead to finite data, if they lead to data at all. -/
theorem isFinite_result (hmode : mode ≠ .forward) {d e : CalibrationData Float32}
    (hd : d.isFinite) (hne : fed ≠ []) (hlen : fed.length < 2 ^ 53)
    (hfed : ∀ s ∈ fed, s.acceleration.isFinite ∧ s.rate.isFinite)
    (h : (Tally.ofList mode d fed : Tally Float32 Float).result? mode d = some e) :
  e.isFinite ∧ e.valid
  := by
  have hrate : (withRate Float d fed).rateBias.isFinite :=
    Vector3.isFinite_map _ fun x hx =>
      (moderate_means hne hlen (fun s hs => (hfed s hs).2) x hx).rounds_narrow.isFinite
  simp only [CalibrationData.isFinite, Bool.and_eq_true] at hd
  obtain ⟨⟨⟨-, hbias⟩, hgravity⟩, hforward⟩ := hd
  obtain ⟨-, rfl⟩ | ⟨-, rfl⟩ := result_rest hmode h
  · simp only [CalibrationData.isFinite, Bool.and_eq_true]
    exact ⟨⟨⟨⟨hrate, hbias⟩, hgravity⟩, hforward⟩, rfl⟩
  · use isFinite_restData hrate hgravity hforward
      (moderate_means hne hlen fun s hs => (hfed s hs).1)
    rfl

/-! ### Data that are believed -/

theorem abs_le_limit_iff {x limit : Float32} (hx : x.isFinite) (hlimit : limit.isFinite) :
  Scalar.abs x ≤ limit ↔ |single x| ≤ single limit
  := by
  have h : x.abs ≤ limit ↔ single x.abs ≤ single limit :=
    single_le_iff (by rwa [isFinite_abs]) hlimit
  rwa [single_abs] at h

theorem single_rateBiasLimit :
  (rateBiasLimit : Float32).isFinite ∧ single rateBiasLimit = 20
  := by
  have h : (rateBiasLimit : Float32).toModel.unpack
      = .finite .positive (20 * 2 ^ 19) (-19) (by decide) := rfl
  use rfl
  rw [single, h, value_positive]
  norm_num

theorem single_accelerationBiasLimit :
  (accelerationBiasLimit : Float32).isFinite ∧ single accelerationBiasLimit = 1 / 2
  := by
  have h : (accelerationBiasLimit : Float32).toModel.unpack
      = .finite .positive (2 ^ 23) (-24) (by decide) := rfl
  use rfl
  rw [single, h, value_positive]
  norm_num

/-- Finite data are believed if their biases are not too large. -/
theorem objection?_eq_none_iff {d : CalibrationData Float32} (hd : d.isFinite) :
  objection? d = none ↔
    (∀ x ∈ d.rateBias.toList, |single x| ≤ 20) ∧
      ∀ x ∈ d.accelerationBias.toList, |single x| ≤ 1 / 2
  := by
  obtain ⟨hrate, hrateLimit⟩ := single_rateBiasLimit
  obtain ⟨hacceleration, haccelerationLimit⟩ := single_accelerationBiasLimit
  have hall {v : Vector3 Float32} (hv : v.isFinite) {limit : Float32}
      (hlimit : limit.isFinite) : v.all (fun x => Scalar.abs x ≤ limit) ↔
        ∀ x ∈ v.toList, |single x| ≤ single limit := by
    rw [Vector3.isFinite_iff] at hv
    rw [Vector3.all_iff]
    apply forall₂_congr
    intro x hx
    rw [decide_eq_true_iff, abs_le_limit_iff (hv x hx) hlimit]
  have hparts := hd
  simp only [CalibrationData.isFinite, Bool.and_eq_true] at hparts
  obtain ⟨⟨⟨hr, ha⟩, -⟩, -⟩ := hparts
  rw [objection?, if_neg (not_not_intro hd), ← hrateLimit, ← haccelerationLimit,
    ← hall hr hrate, ← hall ha hacceleration]
  split
  · rename_i h
    exact iff_of_true rfl h
  · rename_i h
    apply iff_of_false _ h
    rintro ⟨⟩

/-! ### From a calibration to the next start -/

/-- What a first stage finds is found from some of the samples. -/
theorem exists_result (hmode : mode ≠ .forward) (samples : UInt32)
    {c : Calibration Float32 Float} (hstart : unset.start mode samples.toNat = .ok c)
    (hdone : (fed.foldl feed c).status = .done) :
  ∃ used, used ⊆ fed ∧ used ≠ [] ∧ used.length < 2 ^ 53 ∧
    (Tally.ofList mode .unknown used : Tally Float32 Float).result? mode .unknown
      = some (fed.foldl feed c).data
  := by
  have hsamples := samples.toNat_lt
  have htarget : 0 < (if samples.toNat = 0 then defaultRestTarget else samples.toNat) ∧
      (if samples.toNat = 0 then defaultRestTarget else samples.toNat) < 2 ^ 53 := by
    split
    · decide
    · omega
  obtain rfl := Except.ok.inj ((start_rest hmode _ _).symm.trans hstart)
  obtain ⟨hle, hresult⟩ := result_of_done htarget.1 hdone
  refine ⟨_, List.take_subset _ _, ?_, ?_, hresult⟩
  · rw [ne_eq, ← List.length_eq_zero_iff, List.length_take_of_le hle]
    exact htarget.1.ne'
  · rw [List.length_take_of_le hle]
    exact htarget.2

/-- What a first stage finds from finite samples can be stored and read again, and it is
valid.  It is believed on the next start, with the same biases, exactly if the biases are
within the limits. -/
theorem rest_believed_iff (hmode : mode ≠ .forward) (samples : UInt32)
    {c₀ : Calibration Float32 Float} (hstart : unset.start mode samples.toNat = .ok c₀)
    (hfed : ∀ s ∈ fed, s.acceleration.isFinite ∧ s.rate.isFinite)
    (hdone : (fed.foldl feed c₀).status = .done) (c : Calibration Float32 Float) :
  let found := (fed.foldl feed c₀).data
  Record.toCalibration (Record.ofCalibration found) = .ok found ∧ found.valid ∧
    (objection? found = none ∧ (c.load found).data.valid ∧
        (c.load found).data.rateBias = found.rateBias ∧
        (c.load found).data.accelerationBias = found.accelerationBias ↔
      (∀ x ∈ found.rateBias.toList, |single x| ≤ 20) ∧
        ∀ x ∈ found.accelerationBias.toList, |single x| ≤ 1 / 2)
  := by
  intro found
  obtain ⟨used, hused, hne, hlen, hresult⟩ := exists_result hmode samples hstart hdone
  obtain ⟨hfinite, hvalid⟩ :=
    isFinite_result hmode rfl hne hlen (fun s hs => hfed s (hused hs)) hresult
  refine ⟨?_, hvalid, ?_⟩
  · rw [Record.toCalibration_ofCalibration]
    exact if_pos hfinite
  · rw [← objection?_eq_none_iff hfinite]
    constructor
    · exact And.left
    · intro h
      have hload : (c.load found).data.valid = found.valid := valid_load h
      refine ⟨h, hload.trans hvalid, ?_, ?_⟩
      · simp only [load, found, h]
      · simp only [load, found, h]

/-- A level car that turns. -/
def turning (rate : Float32) : Sample Float32 :=
  ⟨.down, ⟨0.0, 0.0, rate⟩⟩

/-- A car that turns slowly meanwhile: the bias is believed. -/
theorem slow_turn_believed :
  let fed := [turning 10.0, turning 11.0]
  let found := (fed.foldl feed (unset.collect .full 2 : Calibration Float32 Float)).data
  (unset : Calibration Float32 Float).start .full 2 = .ok (unset.collect .full 2) ∧
    Record.toCalibration (Record.ofCalibration found) = .ok found ∧
    objection? found = none ∧
    (∀ x ∈ found.rateBias.toList, |single x| ≤ 20) ∧
    ∀ x ∈ found.accelerationBias.toList, |single x| ≤ 1 / 2
  := by
  intro fed found
  have hfed : ∀ s ∈ fed, s.acceleration.isFinite ∧ s.rate.isFinite := by decide +kernel
  have hdone : (fed.foldl feed (unset.collect .full 2 : Calibration Float32 Float)).status
      = .done := by decide +kernel
  have hstart : (unset : Calibration Float32 Float).start .full (2 : UInt32).toNat
      = .ok (unset.collect .full 2) := rfl
  have hnone : objection? found = none := by decide +kernel
  have hload : ((unset : Calibration Float32 Float).load found).data.valid ∧
      ((unset : Calibration Float32 Float).load found).data.rateBias = found.rateBias ∧
      ((unset : Calibration Float32 Float).load found).data.accelerationBias
        = found.accelerationBias := by
    decide +kernel
  obtain ⟨hread, -, hiff⟩ := rest_believed_iff (by decide) 2 hstart hfed hdone unset
  exact ⟨rfl, hread, hnone, hiff.mp ⟨hnone, hload⟩⟩

/-- A car that turns fast meanwhile: the stage succeeds with a bias that is refused on the
next start. -/
theorem fast_turn_refused :
  let c : Calibration Float32 Float := [turning 30.0].foldl feed (unset.collect .gyro 1)
  (unset : Calibration Float32 Float).start .gyro 1 = .ok (unset.collect .gyro 1) ∧
    (turning 30.0).acceleration.isFinite ∧ (turning 30.0).rate.isFinite ∧
    c.status = .done ∧ c.data.valid ∧
    objection? c.data = some .biasOutOfRange ∧
    ¬ ((unset : Calibration Float32 Float).load c.data).data.valid
  := by
  refine ⟨rfl, ?_⟩
  decide +kernel

/-! ### A car that keeps still -/

/-- A sample of a car that hardly turns and stands nearly level. -/
structure Steady (s : Sample Float32) : Prop where
  rate_le : ∀ x ∈ s.rate.toList, |single x| ≤ 20
  x_le : |single s.acceleration.x| ≤ 1 / 2
  y_le : |single s.acceleration.y| ≤ 1 / 2
  z_mem : single s.acceleration.z ∈ Set.Icc (1 / 2) (3 / 2)

theorem rateBias_le (hne : fed ≠ []) (hlen : fed.length < 2 ^ 53)
    (hfed : ∀ s ∈ fed, s.acceleration.isFinite ∧ s.rate.isFinite)
    (hsteady : ∀ s ∈ fed, Steady s) (d : CalibrationData Float32) :
  ∀ x ∈ (withRate Float d fed).rateBias.toList, |single x| ≤ 20
  := by
  have htwenty : Representable .binary32 20 := by
    exact_mod_cast representable_intCast (f := .binary32) (k := 20) (by decide)
  have hmean {p : Sample Float32 → Float32}
      (hp : ∀ s ∈ fed, (p s).isFinite ∧ |single (p s)| ≤ 20) :
      |single (narrow (Moments.ofList (fed.map fun s => widen (p s))).mean)| ≤ 20 := by
    obtain ⟨hm, hle⟩ := mean_widen (ordConnected_abs_le 20) hne hlen hp
    exact hm.abs_narrow_le htwenty hle
  have hrate (s : Sample Float32) (hs : s ∈ fed) := (hfed s hs).2
  have hle (s : Sample Float32) (hs : s ∈ fed) := (hsteady s hs).rate_le
  simp only [Vector3.isFinite_iff, Vector3.forall_mem_toList] at hrate hle
  rw [Vector3.forall_mem_toList]
  exact ⟨hmean fun s hs => ⟨(hrate s hs).1, (hle s hs).1⟩,
    hmean fun s hs => ⟨(hrate s hs).2.1, (hle s hs).2.1⟩,
    hmean fun s hs => ⟨(hrate s hs).2.2, (hle s hs).2.2⟩⟩

/-- A mean that points upwards leaves the distance to `1`. -/
theorem abs_sub_expectedGravity_le (mean : Vector3 Float) (hz : Moderate mean.z)
    (hmem : double mean.z ∈ Set.Icc (1 / 2) (3 / 2)) :
  |single (narrow (mean.z - (expectedGravity mean).z))| ≤ 1 / 2
  := by
  obtain ⟨hlo, hhi⟩ := hmem
  have hr := roundsTo_sub_expectedGravity hz
  rw [if_pos (by linarith)] at hr
  apply (moderate_sub_expectedGravity hz).abs_narrow_le (representable_half (by decide))
  apply hr.abs_value_le (representable_half (by decide))
  rw [abs_le]
  exact ⟨by linarith, by linarith⟩

theorem accelerationBias_le (hne : fed ≠ []) (hlen : fed.length < 2 ^ 53)
    (hfed : ∀ s ∈ fed, s.acceleration.isFinite ∧ s.rate.isFinite)
    (hsteady : ∀ s ∈ fed, Steady s) (d : CalibrationData Float32) :
  let mean : Vector3 Float := means (axes Sample.acceleration fed)
  ∀ x ∈ (restData d mean).accelerationBias.toList, |single x| ≤ 1 / 2
  := by
  have hhalf : Representable .binary32 (1 / 2) := representable_half (by decide)
  have hfinite (s : Sample Float32) (hs : s ∈ fed) := (hfed s hs).1
  simp only [Vector3.isFinite_iff, Vector3.forall_mem_toList] at hfinite
  obtain ⟨hx, hxle⟩ := mean_widen (ordConnected_abs_le (1 / 2)) hne hlen
    fun s hs => ⟨(hfinite s hs).1, (hsteady s hs).x_le⟩
  obtain ⟨hy, hyle⟩ := mean_widen (ordConnected_abs_le (1 / 2)) hne hlen
    fun s hs => ⟨(hfinite s hs).2.1, (hsteady s hs).y_le⟩
  obtain ⟨hz, hzmem⟩ := mean_widen Set.ordConnected_Icc hne hlen
    fun s hs => ⟨(hfinite s hs).2.2, (hsteady s hs).z_mem⟩
  rw [Vector3.forall_mem_toList]
  exact ⟨hx.abs_narrow_le hhalf hxle, hy.abs_narrow_le hhalf hyle,
    abs_sub_expectedGravity_le (means (axes Sample.acceleration fed)) hz hzmem⟩

/-- A first stage that succeeds on a car that keeps still finds data that are believed on
the next start. -/
theorem believed_of_steady (hmode : mode ≠ .forward) (samples : UInt32)
    {c : Calibration Float32 Float} (hstart : unset.start mode samples.toNat = .ok c)
    (hfed : ∀ s ∈ fed, s.acceleration.isFinite ∧ s.rate.isFinite)
    (hsteady : ∀ s ∈ fed, Steady s) (hdone : (fed.foldl feed c).status = .done) :
  objection? (fed.foldl feed c).data = none
  := by
  obtain ⟨used, hused, hne, hlen, hresult⟩ := exists_result hmode samples hstart hdone
  replace hfed (s) (hs : s ∈ used) := hfed s (hused hs)
  replace hsteady (s) (hs : s ∈ used) := hsteady s (hused hs)
  have hfinite := (isFinite_result hmode rfl hne hlen hfed hresult).1
  rw [objection?_eq_none_iff hfinite]
  have hrate := rateBias_le hne hlen hfed hsteady .unknown
  obtain ⟨-, hdata⟩ | ⟨-, hdata⟩ := result_rest hmode hresult
  · rw [hdata]
    use hrate
    intro x hx
    obtain rfl : x = 0.0 := by
      simpa [withRate, CalibrationData.unknown, Vector3.zero, Vector3.toList] using hx
    rw [single_zero, abs_zero]
    norm_num
  · rw [hdata]
    exact ⟨hrate, accelerationBias_le hne hlen hfed hsteady _⟩

end Calibration

end ModelCar
