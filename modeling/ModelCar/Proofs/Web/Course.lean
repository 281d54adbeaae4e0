import ModelCar.Proofs.Stabilization.Patch
import ModelCar.Proofs.Web.Clients

/-!
# Two changes of the tuning

A client that changes the tuning is told the status first, and what it asks for then is
the tuning that it was told, with its change.  If both clients are told the status before
either change is made, the second change starts from a tuning without the first one, and
takes the fields of the first one back to what they were.  In any other order both
changes are held.
-/

namespace ModelCar

namespace Web

open Tuning (Patch)

/-! ### The order of the requests -/

/-- Every question for the status is served before every other request. -/
def QueriesFirst (served : List ModelCar.Request) : Prop :=
  served.Pairwise fun r s => s = .query → r = .query

instance (served : List ModelCar.Request) : Decidable (QueriesFirst served) :=
  inferInstanceAs (Decidable (List.Pairwise _ _))

/-- The request that was served last makes a change to some tuning. -/
def LastChange (p : Patch Float32) (served : List ModelCar.Request) : Prop :=
  ∃ seen, served.getLast? = some (.retune (p.apply seen) true)

variable {served : List ModelCar.Request}

theorem queriesFirst_of_queries (h : ∀ r ∈ served, r = .query) :
  QueriesFirst served
  := by
  apply List.pairwise_of_forall_mem_list
  intro r hr s hs _
  exact h r hr

theorem queriesFirst_change_iff (t : Tuning Float32) (keep : Bool) :
  QueriesFirst (served ++ [.retune t keep]) ↔ QueriesFirst served
  := by
  simp [QueriesFirst, List.pairwise_append]

theorem not_queriesFirst_query (h : ∃ r ∈ served, r ≠ .query) :
  ¬ QueriesFirst (served ++ [.query])
  := by
  obtain ⟨r, hr, hne⟩ := h
  intro hq
  exact hne ((List.pairwise_append.mp hq).2.2 r hr _ (List.mem_singleton_self _) rfl)

/-! ### What the requests lead to -/

/-- How far a client has come: it has not been told the status, or it has been told a
tuning, or its change has been made. -/
inductive Stage where
  | unread
  | read (seen : Tuning Float32)
  | written

variable {p : Side → Patch Float32} {base t : Tuning Float32} {stage : Side → Stage}

/-- The tuning in use, starting from a base, while two clients make their changes. -/
inductive Course (p : Side → Patch Float32) (base : Tuning Float32) (stage : Side → Stage)
    (served : List ModelCar.Request) : Tuning Float32 → Prop where
  /-- No change has been made. -/
  | before (hs : ∀ i, stage i = .unread ∨ stage i = .read base)
      (hq : ∀ r ∈ served, r = .query) :
      Course p base stage served base
  /-- One client has made its change, and the other one has been told the status before
  that, or after it, or not at all. -/
  | between (i : Side) (hi : stage i = .written) (hr : ∃ r ∈ served, r ≠ .query)
      (ho : stage i.other = .unread ∨
        stage i.other = .read base ∧ QueriesFirst served ∨
        stage i.other = .read ((p i).apply base).clamped ∧ ¬ QueriesFirst served) :
      Course p base stage served ((p i).apply base).clamped
  /-- One client has made its change on top of the other one. -/
  | onTop (i : Side) (hs : ∀ j, stage j = .written) (hl : LastChange (p i) served)
      (hq : ¬ QueriesFirst served) :
      Course p base stage served ((p i).apply ((p i.other).apply base).clamped).clamped
  /-- One client has made its change in the place of the other one. -/
  | instead (i : Side) (hs : ∀ j, stage j = .written) (hl : LastChange (p i) served)
      (hq : QueriesFirst served) :
      Course p base stage served ((p i).apply base).clamped

theorem Side.eq_other_of_ne {i j : Side} (h : i ≠ j) :
  i = j.other
  := by
  cases i <;> cases j <;> first | rfl | cases h rfl

theorem Side.other_ne (i : Side) :
  i.other ≠ i
  := by cases i <;> decide

@[simp]
theorem Side.other_other (i : Side) :
  i.other.other = i
  := by cases i <;> rfl

/-- A client is told the status. -/
theorem Course.query (h : Course p base stage served t) {i : Side}
    (hi : stage i = .unread) :
  Course p base (Function.update stage i (.read t)) (served ++ [.query]) t
  := by
  cases h with
  | before hs hq =>
      apply Course.before
      · intro j
        obtain rfl | hj := eq_or_ne j i
        · rw [Function.update_self]
          exact .inr rfl
        · rw [Function.update_of_ne hj]
          exact hs j
      · simp only [List.forall_mem_append, List.forall_mem_singleton, and_true]
        exact hq
  | between k hk hr ho =>
      have hki : k ≠ i := by
        rintro rfl
        rw [hk] at hi
        cases hi
      obtain rfl := Side.eq_other_of_ne hki.symm
      apply Course.between k
      · rw [Function.update_of_ne hki, hk]
      · obtain ⟨r, hr, hne⟩ := hr
        exact ⟨r, List.mem_append_left _ hr, hne⟩
      · right
        right
        rw [Function.update_self]
        exact ⟨rfl, not_queriesFirst_query hr⟩
  | onTop k hs =>
      rw [hs i] at hi
      cases hi
  | instead k hs =>
      rw [hs i] at hi
      cases hi

/-- A client's change is made. -/
theorem Course.change (h : Course p base stage served t) {i : Side}
    {seen : Tuning Float32} (hi : stage i = .read seen) :
  Course p base (Function.update stage i .written)
    (served ++ [.retune ((p i).apply seen) true]) ((p i).apply seen).clamped
  := by
  have hl : LastChange (p i) (served ++ [.retune ((p i).apply seen) true]) :=
    ⟨seen, List.getLast?_concat⟩
  cases h with
  | before hs hq =>
      obtain rfl : seen = base := by
        obtain h | h := hs i
        · rw [h] at hi
          cases hi
        · rw [h] at hi
          cases hi
          rfl
      apply Course.between i
      · rw [Function.update_self]
      · exact ⟨_, List.mem_append_right _ (List.mem_singleton_self _), by rintro ⟨⟩⟩
      · rw [Function.update_of_ne i.other_ne, queriesFirst_change_iff]
        exact (hs i.other).imp_right fun h => .inl ⟨h, queriesFirst_of_queries hq⟩
  | between k hk hr ho =>
      have hki : k ≠ i := by
        rintro rfl
        rw [hk] at hi
        cases hi
      obtain rfl := Side.eq_other_of_ne hki
      have hs (j : Side) : Function.update stage i .written j = .written := by
        obtain rfl | hj := eq_or_ne j i
        · rw [Function.update_self]
        · obtain rfl := Side.eq_other_of_ne hj
          rw [Function.update_of_ne hj, hk]
      rw [Side.other_other, hi] at ho
      -- What this client was told decides whether it undoes the change of the other one.
      obtain h | ⟨h, hq⟩ | ⟨h, hq⟩ := ho
      · cases h
      · cases h
        apply Course.instead i hs hl
        rw [queriesFirst_change_iff]
        exact hq
      · cases h
        apply Course.onTop i hs hl
        rw [queriesFirst_change_iff]
        exact hq
  | onTop k hs =>
      rw [hs i] at hi
      cases hi
  | instead k hs =>
      rw [hs i] at hi
      cases hi

/-- When both changes have been made, the last one is held, and the other one is held as
well if it was made before the last one was begun, or if the base has had its values all
along. -/
theorem Course.heldBy (h : Course p base stage served t) (hw : ∀ i, stage i = .written)
    (hm : ∀ i, (p i).mode = none) (hd : (p .first).Disjoint (p .second))
    (hb : base.clamped = base) :
  ∃ i, LastChange (p i) served ∧ (p i).HeldBy t ∧
    ((p i.other).HeldBy t ↔ ¬ QueriesFirst served ∨ (p i.other).HeldBy base)
  := by
  have hdisjoint (i : Side) : (p i.other).Disjoint (p i) := by
    cases i with
    | first => exact hd.symm
    | second => exact hd
  cases h with
  | before hs =>
      obtain hu | hr := hs .first
      · rw [hw .first] at hu
        cases hu
      · rw [hw .first] at hr
        cases hr
  | between i hi hr ho =>
      rw [hw i.other] at ho
      obtain h | ⟨h, -⟩ | ⟨h, -⟩ := ho <;> cases h
  | onTop i hs hl hq =>
      use i, hl
      rw [Patch.apply_of_mode_eq_none (hm i), Patch.apply_of_mode_eq_none (hm i.other)]
      use Patch.heldBy_assign _ _
      simp only [hq, not_false_eq_true, true_or, iff_true]
      apply (Patch.heldBy_assign _ _).assign (hdisjoint i)
  | instead i hs hl hq =>
      use i, hl
      rw [Patch.apply_of_mode_eq_none (hm i)]
      use Patch.heldBy_assign _ _
      rw [(hdisjoint i).heldBy_assign_iff hb]
      simp only [hq, not_true_eq_false, false_or]

end Web

end ModelCar
