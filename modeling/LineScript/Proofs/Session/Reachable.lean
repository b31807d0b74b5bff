import LineScript.Evaluation

namespace LineScript

namespace Outcome

variable {α : Type}

def Ended : Outcome α → Prop
  | exhausted _ => False
  | _ => True

def value? : Outcome α → Option α
  | value a _ => some a
  | _ => none

theorem eq_of_value? {o : Outcome α} {a : α} (h : o.value? = some a) : o = .value a o.session := by
  cases o with
  | value b s =>
    cases h
    rfl
  | _ => cases h

def failure? : Outcome α → Option Failure
  | failure why _ => some why
  | _ => none

theorem eq_of_failure? {o : Outcome α} {why : Failure} (h : o.failure? = some why) :
    o = .failure why o.session := by
  cases o with
  | failure other s =>
    cases h
    rfl
  | _ => cases h

theorem ended_of_value? {o : Outcome α} {a : α} (h : o.value? = some a) : o.Ended := by
  rw [eq_of_value? h]
  trivial

theorem ended_of_failure? {o : Outcome α} {why : Failure} (h : o.failure? = some why) :
    o.Ended := by
  rw [eq_of_failure? h]
  trivial

end Outcome

namespace Session

/-- Sessions that are new or that whole lines lead to, whatever these end in. A new session may be
opened behind the objects of an earlier one. -/
inductive Reachable : Session → Prop where
  | new : Reachable Session.new
  | another {s : Session} : Reachable s → Reachable (Session.new s.store)
  | line {s : Session} (fuel : Nat) (text : Text) :
    Reachable s → (evalSource fuel text s).Ended → Reachable (evalSource fuel text s).session

theorem Reachable.line_of_value? {s : Session} (h : s.Reachable) {fuel : Nat} {text : Text}
    {answer : Ref} (ha : (evalSource fuel text s).value? = some answer) :
    (evalSource fuel text s).session.Reachable :=
  h.line fuel text (Outcome.ended_of_value? ha)

theorem Reachable.line_of_failure? {s : Session} (h : s.Reachable) {fuel : Nat} {text : Text}
    {why : Failure} (hf : (evalSource fuel text s).failure? = some why) :
    (evalSource fuel text s).session.Reachable :=
  h.line fuel text (Outcome.ended_of_failure? hf)

end Session

end LineScript
