import Mathlib.Tactic.Use
import ModelCar.Web.Api

/-!
# Confirmed changes

A client that changes the tuning asks two questions, one after the other.  Only if both
are answered, and the second one with the new tuning, does its conversation end with a
reply that says that all is well; every other course of it ends with another reply.
-/

namespace ModelCar

theorem Json.sortedFields_eq_map (fields : List (List Char × Json)) :
  sortedFields fields = fields.map fun f => (f.1, f.2.sorted)
  := by
  induction fields with
  | nil => rfl
  | cons f fields ih => rw [sortedFields, ih, List.map_cons]

namespace Web

/-! ### Replies -/

/-- A reply says that all is well. -/
def isConfirmation : Json → Bool
  | .object fields => fields.any fun f => f.1 = "ok".toList && f.2.bool? = some true
  | _ => false

/-- The order of the fields does not matter. -/
theorem isConfirmation_reply (type : String) (fields : List (String × Json)) :
  isConfirmation (reply type fields) ↔
    ∃ f ∈ fields, f.1 = "ok" ∧ f.2.sorted.bool? = some true
  := by
  simp only [isConfirmation, reply, Json.ofFields, List.map_cons, String.reduceToList,
    Json.sorted, Json.sortedFields_eq_map, List.map_map, List.any_eq_true, List.mem_mergeSort,
    List.mem_cons, List.mem_map, Function.comp_apply, Prod.exists, Bool.and_eq_true,
    decide_eq_true_eq, exists_eq_or_imp, List.cons.injEq, Char.reduceEq, reduceCtorEq,
    and_self, false_and, Prod.mk.injEq, false_or]
  constructor
  · rintro ⟨_, _, ⟨name, value, hf, rfl, rfl⟩, hn, hv⟩
    use name, value, hf, String.toList_inj.mp hn, hv
  · rintro ⟨name, value, hf, rfl, hv⟩
    use "ok".toList, value.sorted, ⟨"ok", value, hf, rfl, rfl⟩, rfl, hv

/-! ### Questions -/

/-- How a conversation goes on when a question has been answered or not. -/
def resume {α : Type} (expected : Answer → Option α) (next : α → Conversation) :
    Outcome → Conversation
  | .answered answer =>
    match expected answer with
    | some a => next a
    | none => unanswered
  | .rejected reason => rejected reason
  | .silent => unanswered

/-- The status in an answer. -/
def status? : Answer → Option Status
  | .status s => some s
  | _ => none

/-- What became of a change of the tuning, in an answer. -/
def retuned? : Answer → Option (Except Tuning.Failure (Tuning Float32))
  | .retune result => some result
  | _ => none

/-- The conversation of a client that changes the tuning, when it has been told the
status. -/
def change (p : Tuning.Patch Float32) (s : Status) : Conversation :=
  .ask (.retune (p.apply s.tuning) true) (resume retuned? retuned)

theorem retune_eq (p : Tuning.Patch Float32) :
  retune p = .ask .query (resume status? (change p))
  := rfl

/-! ### Conversations without success -/

/-- A conversation that only ends, and not with a confirmation. -/
def Hopeless : Conversation → Prop
  | .done reply => ∀ r, reply = some r → ¬ isConfirmation r
  | .note _ next => Hopeless next
  | _ => False

theorem hopeless_say {type : String} {fields : List (String × Json)}
    (h : ∀ f ∈ fields, f.1 = "ok" → f.2.sorted.bool? ≠ some true) :
  Hopeless (.say (reply type fields))
  := by
  rintro _ ⟨⟩ hc
  obtain ⟨f, hf, hn, hv⟩ := (isConfirmation_reply type fields).mp hc
  exact h f hf hn hv

theorem hopeless_error (message : String) :
  Hopeless (.say (errorReply message))
  := by
  apply hopeless_say
  intro f hf hn
  obtain rfl := List.mem_singleton.mp hf
  have hne : "message" ≠ "ok" := by decide
  contradiction

/-- A question that is not answered, or rejected, ends the conversation. -/
theorem hopeless_resume {α : Type} (expected : Answer → Option α)
    (next : α → Conversation) {o : Outcome} (h : ∀ a, o ≠ .answered a) :
  Hopeless (resume expected next o)
  := by
  cases o with
  | answered a => cases h a rfl
  | rejected reason => exact hopeless_error _
  | silent => exact hopeless_error _

/-- A change that fails is not confirmed. -/
theorem hopeless_retuned (e : Tuning.Failure) :
  Hopeless (retuned (.error e))
  := by
  apply hopeless_say
  intro f hf hn
  obtain rfl | hf := List.mem_cons.mp hf
  · decide
  · obtain rfl := List.mem_singleton.mp hf
    have hne : "message" ≠ "ok" := by decide
    contradiction

theorem isConfirmation_ack (t : Tuning Float32) :
  isConfirmation (reply "set_stab_config_ack" [("ok", .bool true), ("config", tuningValue t)])
  := by
  rw [isConfirmation_reply]
  use ("ok", .bool true), List.mem_cons_self, rfl
  rfl

/-- A change that succeeds is confirmed, when that has been reported in the journal. -/
theorem retuned_ok (t : Tuning Float32) :
  ∃ entry reply, retuned (.ok t) = .note entry (.done (some reply)) ∧ isConfirmation reply
  := ⟨_, _, rfl, isConfirmation_ack t⟩

end Web

end ModelCar
