import ModelCar.Proofs.Motion.Stages
import ModelCar.Proofs.Motion.Statistics

/-!
# Pushing the car

The second stage adds up the accelerations beyond gravity that are large enough to be pushes,
and remembers the first one.  In exact arithmetic it finds the direction of their sum, turned
so that it does not point against the first one.  It fails exactly if the sum shows no
direction, as when no sample is a push or when they cancel each other out.
-/

namespace ModelCar

namespace Calibration

section
variable {α β : Type} [Scalar α] [Scalar β] [Precision α β]

/-! ### Collecting pushes -/

variable (β) in
/-- An acceleration beyond gravity is large enough for a push. -/
def isPush (v : Vector3 α) : Bool :=
  (Precision.widen (smallestPush : α) : β) ≤ v.lengthSq

variable (β) in
/-- The accelerations beyond gravity that are pushes. -/
def pushes (d : CalibrationData α) (fed : List (Sample α)) : List (Vector3 α) :=
  (fed.map (pushOf d)).filter (isPush β)

/-- Adds up vectors in the wider number system, beginning with one of it. -/
def sumFrom (sum : Vector3 β) (vs : List (Vector3 α)) : Vector3 β :=
  vs.foldl (fun sum v => sum + v.map Precision.widen) sum

/-- Adds the pushes to the sum of a tally, which remembers the first one of all. -/
def Tally.addPushes (t : Tally α β) (vs : List (Vector3 α)) : Tally α β :=
  { t with
    push := sumFrom t.push vs
    firstPush := t.firstPush <|> vs.head? }

omit [Scalar α] in
theorem Tally.addPushes_nil (t : Tally α β) :
  t.addPushes [] = t
  := by
  obtain ⟨rate, acceleration, push, first | first⟩ := t
  · rfl
  · rfl

/-- Samples of the second stage add their pushes, and nothing else. -/
theorem foldl_add_forward (d : CalibrationData α) (fed : List (Sample α)) (t : Tally α β) :
  fed.foldl (fun t s => t.add .forward d s) t = t.addPushes (pushes β d fed)
  := by
  induction fed generalizing t with
  | nil => rw [List.foldl_nil, pushes, List.map_nil, List.filter_nil, t.addPushes_nil]
  | cons s fed ih =>
      rw [List.foldl_cons, ih, pushes, pushes, List.map_cons, Tally.add]
      split
      · rename_i h
        have hpush : isPush β (pushOf d s) := decide_eq_true h
        rw [List.filter_cons_of_pos hpush]
        obtain ⟨rate, acceleration, push, first | first⟩ := t
        · rfl
        · rfl
      · rename_i h
        have hpush : ¬ isPush β (pushOf d s) := fun hpush => h (of_decide_eq_true hpush)
        rw [List.filter_cons_of_neg hpush]

theorem ofList_forward (d : CalibrationData α) (fed : List (Sample α)) :
  (Tally.ofList .forward d fed : Tally α β) = Tally.empty.addPushes (pushes β d fed)
  := foldl_add_forward d fed .empty

/-- The sum of the pushes is long enough, so its direction is found. -/
theorem result_forward {t : Tally α β} {first : Vector3 α} (hfirst : t.firstPush = some first)
    (h : ¬ t.push.dot t.push < smallestSum) (d : CalibrationData α) :
  let forward : Vector3 α := t.push.over (Scalar.sqrt (t.push.dot t.push))
  t.result? .forward d =
    some { d with forward := if forward.dot first < 0.0 then -forward else forward }
  := by
  simp only [Tally.result?, if_neg h, hfirst]

theorem finish_of_some {c : Calibration α β} {d : CalibrationData α}
    (h : c.tally.result? c.mode c.data = some d) :
  c.finish = { c with data := d, status := .done }
  := by rw [finish, h]

theorem finish_of_none {c : Calibration α β} (h : c.tally.result? c.mode c.data = none) :
  c.finish = { c with status := .failed }
  := by rw [finish, h]

/-! ### Starting again -/

/-- The forward direction that is known before a second stage does not count in it. -/
theorem finish_again {c before : Calibration α β} {v : Vector3 α}
    (h : before.data = { c.data with forward := v }) (target : Nat) (fed : List (Sample α)) :
  let ended := (c.collecting .forward target fed).finish
  let again := (before.collecting .forward target fed).finish
  again.status = ended.status ∧ (again.status = .done → again.data = ended.data) ∧
    (again.status ≠ .done → again.data = before.data)
  := by
  intro ended again
  have hsame : (Tally.ofList .forward before.data fed : Tally α β).result? .forward before.data =
      (Tally.ofList .forward c.data fed : Tally α β).result? .forward c.data := by
    rw [h]
    rfl
  cases hresult : (Tally.ofList .forward c.data fed : Tally α β).result? .forward c.data with
  | none =>
      have hended : ended = _ := finish_of_none hresult
      have hagain : again = _ := finish_of_none (hsame.trans hresult)
      rw [hended, hagain]
      exact ⟨rfl, nofun, fun _ => rfl⟩
  | some d =>
      have hended : ended = _ := finish_of_some hresult
      have hagain : again = _ := finish_of_some (hsame.trans hresult)
      rw [hended, hagain]
      exact ⟨rfl, fun _ => rfl, fun hdone => absurd rfl hdone⟩

/-- A session leaves the data as they are, unless it is done; then it changes what it is
about. -/
theorem foldl_feed_data (c : Calibration α β) (mode : Mode) {target : Nat} (ht : 0 < target)
    (fed : List (Sample α)) :
  let after := fed.foldl feed (c.collect mode target)
  after.status ≠ .done ∧ after.data = c.data ∨
    after.status = .done ∧ after.data = mode.found c.data after.data
  := by
  intro after
  have hafter : after = _ := foldl_feed c mode ht fed
  rw [hafter]
  split
  · left
    exact ⟨by rintro ⟨⟩, rfl⟩
  · obtain h | ⟨e, he, h⟩ := finish_cases (c.collecting mode target (fed.take target))
    · left
      rw [h]
      exact ⟨by rintro ⟨⟩, rfl⟩
    · right
      rw [h]
      exact ⟨rfl, he⟩

end

end Calibration

/-! ### Euclidean space -/

namespace Vector3

/-- The point with the coordinates of a vector. -/
noncomputable def toEuclidean (v : Vector3 ℝ) : EuclideanSpace ℝ (Fin 3) :=
  WithLp.toLp _ ![v.x, v.y, v.z]

theorem toEuclidean_zero :
  (@zero ℝ (exactScalar Real.sqrt)).toEuclidean = 0
  := by
  have hzero : (0.0 : ℝ) = 0 := by norm_num
  ext i
  fin_cases i <;> exact hzero

theorem toEuclidean_add (v w : Vector3 ℝ) :
  (v.zipWith (· + ·) w).toEuclidean = v.toEuclidean + w.toEuclidean
  := by
  ext i
  fin_cases i <;> rfl

theorem toEuclidean_sub (v w : Vector3 ℝ) :
  (v.zipWith (· - ·) w).toEuclidean = v.toEuclidean - w.toEuclidean
  := by
  ext i
  fin_cases i <;> rfl

theorem toEuclidean_neg (v : Vector3 ℝ) :
  (v.map (- ·)).toEuclidean = -v.toEuclidean
  := by
  ext i
  fin_cases i <;> rfl

theorem toEuclidean_over (v : Vector3 ℝ) (n : ℝ) :
  (@Vector3.over ℝ ℝ (exactScalar Real.sqrt) (exactPrecision ℝ) v n).toEuclidean
    = n⁻¹ • v.toEuclidean
  := by
  ext i
  fin_cases i <;> exact div_eq_inv_mul _ _

theorem inner_toEuclidean (v w : Vector3 ℝ) :
  inner ℝ v.toEuclidean w.toEuclidean = @dot ℝ (exactScalar Real.sqrt) v w
  := by
  rw [PiLp.inner_apply, Fin.sum_univ_three]
  calc _ = w.x * v.x + w.y * v.y + w.z * v.z := rfl
    _ = v.x * w.x + v.y * w.y + v.z * w.z := by ring

theorem norm_sq_toEuclidean (v : Vector3 ℝ) :
  ‖v.toEuclidean‖ ^ 2 = @dot ℝ (exactScalar Real.sqrt) v v
  := by rw [← inner_toEuclidean, real_inner_self_eq_norm_sq]

theorem inner_toEuclidean_lt_zero_iff (v w : Vector3 ℝ) :
  inner ℝ v.toEuclidean w.toEuclidean < 0 ↔ @dot ℝ (exactScalar Real.sqrt) v w < (0.0 : ℝ)
  := by rw [inner_toEuclidean, show (0.0 : ℝ) = 0 by norm_num]

/-- A vector divided by its length is the direction of the vector. -/
theorem toEuclidean_direction (v : Vector3 ℝ) :
  letI := exactScalar Real.sqrt
  letI := exactPrecision ℝ
  (v.over (Real.sqrt (v.dot v)) : Vector3 ℝ).toEuclidean
    = ‖v.toEuclidean‖⁻¹ • v.toEuclidean
  := by
  rw [← norm_sq_toEuclidean, Real.sqrt_sq (norm_nonneg _)]
  apply toEuclidean_over

end Vector3

namespace Calibration

/-- The accelerations of some samples beyond gravity, as far as they are long enough for a
push. -/
noncomputable def exactPushes (d : CalibrationData ℝ) (fed : List (Sample ℝ)) :
    List (EuclideanSpace ℝ (Fin 3)) :=
  (fed.map fun s =>
    s.acceleration.toEuclidean - d.accelerationBias.toEuclidean - d.gravity.toEuclidean).filter
      fun v => 1 / 20 ≤ ‖v‖

theorem isPush_exact_iff (v : Vector3 ℝ) :
  @isPush ℝ ℝ (exactScalar Real.sqrt) (exactScalar Real.sqrt) (exactPrecision ℝ) v ↔
    1 / 20 ≤ ‖v.toEuclidean‖
  := by
  have hsq : ((1 : ℝ) / 20) ^ 2 = 0.05 * 0.05 := by norm_num
  rw [isPush, decide_eq_true_iff, ← sq_le_sq₀ (by norm_num) (norm_nonneg _), hsq,
    Vector3.norm_sq_toEuclidean]
  rfl

theorem map_pushes_exact (d : CalibrationData ℝ) (fed : List (Sample ℝ)) :
  letI := exactScalar Real.sqrt
  letI := exactPrecision ℝ
  (pushes ℝ d fed).map Vector3.toEuclidean = exactPushes d fed
  := by
  let := exactScalar Real.sqrt
  have hmap : (fed.map fun s => s.acceleration.toEuclidean - d.accelerationBias.toEuclidean
      - d.gravity.toEuclidean) = (fed.map (pushOf d)).map Vector3.toEuclidean := by
    rw [List.map_map]
    apply List.map_congr_left
    intro s _
    rw [← Vector3.toEuclidean_sub, ← Vector3.toEuclidean_sub]
    rfl
  rw [exactPushes, hmap, List.filter_map, pushes]
  congr 1
  apply List.filter_congr
  intro v _
  rw [Bool.eq_iff_iff, isPush_exact_iff, Function.comp_apply, decide_eq_true_iff]

theorem toEuclidean_sumFrom (sum : Vector3 ℝ) (vs : List (Vector3 ℝ)) :
  (@sumFrom ℝ ℝ (exactScalar Real.sqrt) (exactPrecision ℝ) sum vs).toEuclidean =
    sum.toEuclidean + (vs.map Vector3.toEuclidean).sum
  := by
  induction vs generalizing sum with
  | nil => rw [List.map_nil, List.sum_nil, add_zero]; rfl
  | cons v vs ih =>
      rw [List.map_cons, List.sum_cons, ← add_assoc, ← Vector3.toEuclidean_add]
      exact ih _

/-- The sum of the pushes of a tally is the sum of the pushes in Euclidean space. -/
theorem push_ofList_exact (d : CalibrationData ℝ) (fed : List (Sample ℝ)) :
  letI := exactScalar Real.sqrt
  letI := exactPrecision ℝ
  (Tally.ofList .forward d fed : Tally ℝ ℝ).push.toEuclidean = (exactPushes d fed).sum
  := by
  let := exactScalar Real.sqrt
  let := exactPrecision ℝ
  rw [ofList_forward, ← map_pushes_exact, ← zero_add (List.sum _), ← Vector3.toEuclidean_zero]
  apply toEuclidean_sumFrom

/-! ### The end of a second stage -/

section
variable {K : Type} [Field K] [LinearOrder K] (sqrt : K → K) {samples : UInt32}
  {fed : List (Sample K)} (hlen : fed.length = Mode.forward.target samples)
include hlen

/-- A second stage is refused, or it ends with the last one of its samples. -/
theorem exactRun_forward (c : Calibration K K) :
  exactRun sqrt c .forward samples.toNat fed =
    letI := exactScalar sqrt
    letI := exactPrecision K
    if c.Refuses .forward then .error .noGravity else .ok (exactEnd sqrt c .forward fed)
  := by
  let := exactScalar sqrt
  let := exactPrecision K
  rw [exactRun, start_eq]
  split
  · rfl
  · rw [Except.map, foldl_feed c .forward (Mode.forward.target_pos samples), ← hlen,
      if_neg (lt_irrefl _), List.take_length]
    rfl

omit hlen

/-- After a session of the second stage, or of another one that has found nothing, the data are
the same but for the forward direction. -/
theorem exactRun_data {c before : Calibration K K} {mode : Mode}
    (hrun : exactRun sqrt c mode samples.toNat fed = .ok before)
    (h : before.status ≠ .done ∨ mode = .forward) :
  ∃ v, before.data = { c.data with forward := v }
  := by
  let := exactScalar sqrt
  let := exactPrecision K
  rw [exactRun, start_eq] at hrun
  split at hrun
  · cases hrun
  · obtain rfl : fed.foldl feed (c.collect mode (mode.target samples)) = before :=
      Except.ok.inj hrun
    obtain ⟨-, hdata⟩ | ⟨hdone, hdata⟩ := foldl_feed_data c mode (mode.target_pos samples) fed
    · exact ⟨c.data.forward, hdata⟩
    · obtain hne | rfl := h
      · cases hne hdone
      · exact ⟨_, hdata⟩

end

variable {c : Calibration ℝ ℝ} {fed : List (Sample ℝ)}

/-- A second stage fails if the pushes add up to no direction. -/
theorem exactEnd_of_no_direction (h : ‖(exactPushes c.data fed).sum‖ ^ 2 < 1e-8) :
  (exactEnd Real.sqrt c .forward fed).status = .failed ∧
    (exactEnd Real.sqrt c .forward fed).data = c.data
  := by
  let := exactScalar Real.sqrt
  let := exactPrecision ℝ
  rw [← push_ofList_exact, Vector3.norm_sq_toEuclidean] at h
  have hresult : (Tally.ofList .forward c.data fed : Tally ℝ ℝ).result? .forward c.data = none :=
    (result_forward_eq_none_iff _ _).mpr h
  have hend : exactEnd Real.sqrt c .forward fed = _ := finish_of_none hresult
  rw [hend]
  exact ⟨rfl, rfl⟩

/-- A second stage finds the direction of the sum of the pushes, or the opposite one if the
first push points more to that side. -/
theorem exactEnd_of_direction (h : ¬ ‖(exactPushes c.data fed).sum‖ ^ 2 < 1e-8) :
  ∃ first, (exactPushes c.data fed).head? = some first ∧
    (exactEnd Real.sqrt c .forward fed).status = .done ∧
    ∃ v, (exactEnd Real.sqrt c .forward fed).data = { c.data with forward := v } ∧
      let direction := ‖(exactPushes c.data fed).sum‖⁻¹ • (exactPushes c.data fed).sum
      v.toEuclidean = if inner ℝ direction first < 0 then -direction else direction
  := by
  let := exactScalar Real.sqrt
  let := exactPrecision ℝ
  let t : Tally ℝ ℝ := .ofList .forward c.data fed
  have hsum : t.push.toEuclidean = (exactPushes c.data fed).sum := push_ofList_exact c.data fed
  have hfirst : t.firstPush = (pushes ℝ c.data fed).head? :=
    congrArg Tally.firstPush (ofList_forward c.data fed)
  have hne : exactPushes c.data fed ≠ [] := by
    intro hnil
    rw [hnil, List.sum_nil] at h
    norm_num at h
  rw [← map_pushes_exact, Ne, List.map_eq_nil_iff] at hne
  obtain ⟨first, rest, hpushes⟩ := List.exists_cons_of_ne_nil hne
  rw [hpushes, List.head?_cons] at hfirst
  rw [← hsum, Vector3.norm_sq_toEuclidean] at h
  have hresult := result_forward hfirst h c.data
  have hend : exactEnd Real.sqrt c .forward fed = _ := finish_of_some hresult
  refine ⟨first.toEuclidean, ?_, ?_⟩
  · rw [← map_pushes_exact, hpushes, List.map_cons, List.head?_cons]
  · rw [hend, ← hsum, ← Vector3.toEuclidean_direction]
    refine ⟨rfl, _, rfl, ?_⟩
    simp only [Vector3.inner_toEuclidean_lt_zero_iff]
    rw [apply_ite Vector3.toEuclidean, ← Vector3.toEuclidean_neg]
    rfl

theorem refuses_forward_exact_iff (c : Calibration ℝ ℝ) :
  letI := exactScalar Real.sqrt
  letI := exactPrecision ℝ
  ¬ c.Refuses .forward ↔ c.data.valid ∧ 1e-6 ≤ ‖c.data.gravity.toEuclidean‖ ^ 2
  := by
  let := exactScalar Real.sqrt
  let := exactPrecision ℝ
  rw [Refuses, Vector3.norm_sq_toEuclidean]
  simp only [true_and, not_or, not_not]
  exact and_congr_right' not_lt

/-- How a second stage ends that has begun with some data and was given some pushes. -/
structure EndsWith (d : CalibrationData ℝ) (pushes : List (EuclideanSpace ℝ (Fin 3)))
    (ended : Calibration ℝ ℝ) : Prop where
  failed_iff : ended.status = .failed ↔ ‖pushes.sum‖ ^ 2 < 1e-8
  failed_of_nil : pushes = [] → ended.status = .failed
  data_of_failed : ended.status = .failed → ended.data = d
  /-- A direction of length one has been found, and the first push does not point against it. -/
  found : ended.status ≠ .failed → ended.status = .done ∧
    ∃ v first, ended.data = { d with forward := v } ∧ pushes.head? = some first ∧
      (v.toEuclidean = ‖pushes.sum‖⁻¹ • pushes.sum ∨
        v.toEuclidean = -(‖pushes.sum‖⁻¹ • pushes.sum)) ∧
      ‖v.toEuclidean‖ = 1 ∧ 0 ≤ inner ℝ v.toEuclidean first

variable (c fed) in
theorem endsWith_exactEnd :
  EndsWith c.data (exactPushes c.data fed) (exactEnd Real.sqrt c .forward fed)
  := by
  let pushes := exactPushes c.data fed
  let ended := exactEnd Real.sqrt c .forward fed
  rcases lt_or_ge (‖pushes.sum‖ ^ 2) 1e-8 with h | h
  · obtain ⟨hfailed, hdata⟩ := exactEnd_of_no_direction h
    exact ⟨iff_of_true hfailed h, fun _ => hfailed, fun _ => hdata, fun hne => absurd hfailed hne⟩
  · obtain ⟨first, hfirst, hdone, v, hdata, hv⟩ := exactEnd_of_direction (not_lt.mpr h)
    have hne : ended.status ≠ .failed := by
      rw [hdone]
      rintro ⟨⟩
    have hsum : ‖pushes.sum‖ ≠ 0 := by
      intro hzero
      rw [hzero] at h
      norm_num at h
    have hlength : ‖‖pushes.sum‖⁻¹ • pushes.sum‖ = 1 := by
      rw [norm_smul, norm_inv, norm_norm, inv_mul_cancel₀ hsum]
    refine ⟨iff_of_false hne (not_lt.mpr h), ?_, fun hfailed => absurd hfailed hne,
      fun _ => ⟨hdone, v, first, hdata, hfirst, ?_⟩⟩
    · intro hnil
      cases (congrArg List.head? hnil).symm.trans hfirst
    · rw [hv]
      split
      · rename_i hside
        rw [norm_neg, inner_neg_left]
        exact ⟨.inr rfl, hlength, neg_nonneg.mpr hside.le⟩
      · rename_i hside
        exact ⟨.inl rfl, hlength, not_lt.mp hside⟩

/-- In exact arithmetic a second stage is started exactly if the data are valid and say where
gravity is.  Then it fails exactly if the sum of the pushes is too short, as it is without any,
and the data stay.  Otherwise it is done, and only the forward direction has changed: to the
direction of the sum or the opposite one, the one that the first push does not point against.
If the stage is started again, it does not matter what was fed in a session before, as long as
that has not found where gravity is. -/
theorem forward_of_pushes (c : Calibration ℝ ℝ) {samples : UInt32} {fed : List (Sample ℝ)}
    (hlen : fed.length = Mode.forward.target samples) :
  ((∃ ended, exactRun Real.sqrt c .forward samples.toNat fed = .ok ended) ↔
    c.data.valid ∧ 1e-6 ≤ ‖c.data.gravity.toEuclidean‖ ^ 2) ∧
  ∀ ended, exactRun Real.sqrt c .forward samples.toNat fed = .ok ended →
    EndsWith c.data (exactPushes c.data fed) ended ∧
    ∀ mode (other : UInt32) earlier before,
      exactRun Real.sqrt c mode other.toNat earlier = .ok before →
      before.status ≠ .done ∨ mode = .forward →
      ∃ again, exactRun Real.sqrt before .forward samples.toNat fed = .ok again ∧
        again.status = ended.status ∧ (again.status = .done → again.data = ended.data) ∧
        (again.status ≠ .done → again.data = before.data)
  := by
  let := exactScalar Real.sqrt
  let := exactPrecision ℝ
  rw [← refuses_forward_exact_iff, exactRun_forward Real.sqrt hlen]
  split
  · rename_i hrefuses
    simp [hrefuses]
  · rename_i hrefuses
    constructor
    · simp [hrefuses]
    · rintro ended ⟨⟩
      use endsWith_exactEnd c fed
      intro mode other earlier before hrun hbefore
      obtain ⟨v, hdata⟩ := exactRun_data Real.sqrt hrun hbefore
      have hagain : ¬ before.Refuses .forward := by
        rw [Refuses, hdata]
        exact hrefuses
      rw [exactRun_forward Real.sqrt hlen, if_neg hagain]
      exact ⟨_, rfl, finish_again hdata fed.length fed⟩

/-- A car whose sensor has no biases and stands upright. -/
noncomputable def upright : Calibration ℝ ℝ :=
  letI := exactScalar Real.sqrt
  { unset with data := ⟨⟨0, 0, 0⟩, ⟨0, 0, 0⟩, ⟨0, 0, 1⟩, ⟨1, 0, 0⟩, true⟩ }

/-- The sample of a car that is accelerated along the first axis. -/
noncomputable def accelerated (x : ℝ) : Sample ℝ :=
  ⟨⟨x, 0, 1⟩, ⟨0, 0, 0⟩⟩

theorem exactPushes_accelerated {xs : List ℝ} (h : ∀ x ∈ xs, 1 / 20 ≤ |x|) :
  exactPushes upright.data (xs.map accelerated) = xs.map fun x => EuclideanSpace.single 0 x
  := by
  have hpush (x : ℝ) : (accelerated x).acceleration.toEuclidean
      - upright.data.accelerationBias.toEuclidean - upright.data.gravity.toEuclidean
        = EuclideanSpace.single 0 x := by
    ext i
    fin_cases i <;> simp [Vector3.toEuclidean, accelerated, upright]
  rw [exactPushes, List.map_map]
  simp only [Function.comp_def, hpush]
  rw [List.filter_eq_self]
  intro v hv
  obtain ⟨x, hx, rfl⟩ := List.mem_map.mp hv
  rw [decide_eq_true_iff, PiLp.norm_single]
  exact h x hx

/-- A car that is first pulled back a little and then pushed. -/
theorem forward_of_pushes_backwards :
  [accelerated (-1), accelerated 3].length = Mode.forward.target 2 ∧
    ∃ ended, exactRun Real.sqrt upright .forward 2 [accelerated (-1), accelerated 3] = .ok ended ∧
      ended.status = .done ∧ ended.data.forward.toEuclidean = EuclideanSpace.single 0 (-1)
  := by
  have hlen : [accelerated (-1), accelerated 3].length = Mode.forward.target 2 := rfl
  have hpushes : exactPushes upright.data [accelerated (-1), accelerated 3] =
      [EuclideanSpace.single 0 (-1), EuclideanSpace.single 0 3] := by
    apply @exactPushes_accelerated [-1, 3]
    norm_num
  have hsum : ([EuclideanSpace.single 0 (-1), EuclideanSpace.single 0 3] :
      List (EuclideanSpace ℝ (Fin 3))).sum = EuclideanSpace.single 0 2 := by
    ext i
    fin_cases i <;> norm_num
  have hgravity : (1e-6 : ℝ) ≤ ‖upright.data.gravity.toEuclidean‖ ^ 2 := by
    rw [Vector3.norm_sq_toEuclidean]
    calc (1e-6 : ℝ) ≤ 0 * 0 + 0 * 0 + 1 * 1 := by norm_num
      _ = _ := rfl
  obtain ⟨hstart, hrun⟩ := forward_of_pushes upright hlen
  obtain ⟨ended, hended⟩ := hstart.mpr ⟨rfl, hgravity⟩
  obtain ⟨⟨hfailed, -, -, hfound⟩, -⟩ := hrun ended hended
  rw [hpushes, hsum, PiLp.norm_single] at hfailed hfound
  have hne : ended.status ≠ .failed := by
    rw [Ne, hfailed]
    norm_num
  obtain ⟨hdone, v, first, hdata, hfirst, hv, -, hside⟩ := hfound hne
  obtain rfl : EuclideanSpace.single 0 (-1) = first := Option.some.inj hfirst
  refine ⟨hlen, ended, hended, hdone, ?_⟩
  have hdirection : ‖(2 : ℝ)‖⁻¹ • EuclideanSpace.single 0 2 =
      (EuclideanSpace.single 0 1 : EuclideanSpace ℝ (Fin 3)) := by
    ext i
    fin_cases i <;> norm_num
  rw [hdata]
  rw [hdirection] at hv
  obtain hv | hv := hv
  · rw [hv] at hside
    norm_num [EuclideanSpace.inner_single_left] at hside
  · rw [hv]
    ext i
    fin_cases i <;> norm_num

end Calibration

end ModelCar
