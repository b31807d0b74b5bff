import LineScript.Proofs.Evaluation.Depth
import LineScript.Proofs.Evaluation.LiftedOnce

namespace LineScript

open Text Eval

theorem Bindings.insert_ne_nil {α : Type} (name : Text) (value : α) (bindings : Bindings α) :
    bindings.insert name value ≠ [] := by
  cases bindings with
  | nil => exact List.cons_ne_nil _ _
  | cons entry rest =>
    rw [insert]
    split <;> exact List.cons_ne_nil _ _

namespace Session

theorem withLiterals_temporary_ne_nil {s : Session} (hs : s.scopes.temporary ≠ [])
    (ls : List Text) : (s.withLiterals ls).scopes.temporary ≠ [] := by
  induction ls generalizing s with
  | nil => exact hs
  | cons l ls ih => exact ih (Bindings.insert_ne_nil _ _ _)

theorem withLiterals_temporary_eq_nil_iff {s : Session} {ls : List Text} :
    (s.withLiterals ls).scopes.temporary = [] ↔ s.scopes.temporary = [] ∧ ls = [] := by
  refine ⟨fun h => ?_, fun ⟨hs, hl⟩ => hl ▸ hs⟩
  cases ls with
  | nil => exact ⟨h, rfl⟩
  | cons l ls => exact absurd h (withLiterals_temporary_ne_nil (Bindings.insert_ne_nil _ _ _) ls)

theorem closed_of_statement? {s : Session} {line : Text} {form : Statement}
    (h : s.statement? line = some form) : (Text.literals line).closed = true := by
  obtain ⟨lifted, -, hl⟩ := lifted_of_statement? h
  rw [extractLiterals_apply] at hl
  split at hl
  next hclosed => exact hclosed
  next => cases hl

theorem opened_temporary_eq_nil_iff {s : Session} {line : Text}
    (hc : (Text.literals line).closed = true) : (s.opened line).scopes.temporary = [] ↔
      s.scopes.temporary = [] ∧ unescapedQuotes line = 0 := by
  rw [closed_eq] at hc
  have heven : unescapedQuotes line % 2 = 0 := by simpa using hc
  have hquoted : (Text.literals line).quoted = [] ↔ unescapedQuotes line = 0 := by
    rw [← List.length_eq_zero_iff, length_quoted]
    omega
  rw [opened, withLiterals_temporary_eq_nil_iff, List.map_eq_nil_iff, hquoted]
  rfl

end Session

theorem apply_zero_temporary (evaluate : Text → Nat → Eval Ref) (callable : Ref) (args : List Text)
    (s : Session) : (apply evaluate callable args 0 s).session.scopes.temporary = [] := by
  rw [apply, if_pos rfl, afterwards_apply]
  generalize (bindArguments evaluate callable args 0 >>= fun _ => invoke evaluate callable 0) s = o
  cases o <;> rfl

/-- A line that is a call forgets all temporary bindings, however it ends, if the callee or the
member can be called. If not, the bindings stay as they were once the literals of the line were
bound, and so there are none only if there were none before and the line has no literals. -/
theorem temporary_after_call {s : Session} {line : Text} {form : Statement} {args : List Text}
    (hf : s.statement? line = some form) (ha : form.args? = some args) (fuel : Nat) :
    let t := (evalSource (fuel + 1) line s).session
    t.scopes.temporary =
      (if ((s.opened line).called? form).isSome then [] else (s.opened line).scopes.temporary) ∧
    (t.scopes.temporary = [] ↔ ((s.opened line).called? form).isSome ∨
      (s.scopes.temporary = [] ∧ unescapedQuotes line = 0)) := by
  intro t
  have same : (s.opened line).SameButLog ((s.opened line).record (.classified form)) :=
    Session.SameButLog.rfl.record_right _
  have ht : t.scopes.temporary =
      if ((s.opened line).called? form).isSome then [] else (s.opened line).scopes.temporary := by
    change (evalSource (fuel + 1) line s).session.scopes.temporary = _
    rw [evalSource_of_statement? hf, same.called?_eq form]
    cases hc : ((s.opened line).record (.classified form)).called? form with
    | some callable =>
      obtain ⟨args', -, hp⟩ := perform_of_called hc
      rw [hp]
      exact apply_zero_temporary _ _ _ _
    | none =>
      obtain ⟨o, ho, hp⟩ := perform_of_not_called hc ha
      rw [hp, ho]
      rfl
  refine ⟨ht, ?_⟩
  rw [ht, ← Session.opened_temporary_eq_nil_iff (Session.closed_of_statement? hf)]
  split <;> simp_all

theorem temporary_after_call_mismatched :
    Session.new.statement? "add:(inc:1),\"b\"".toList =
      some (.call "add".toList ["(inc:1)".toList, "_s_1".toList]) ∧
    (evalSource (4 + 1) "add:(inc:1),\"b\"".toList Session.new).session.scopes.temporary = [] := by
  have hf : Session.new.statement? "add:(inc:1),\"b\"".toList =
      some (.call "add".toList ["(inc:1)".toList, "_s_1".toList]) := by decide +kernel
  exact ⟨hf, (temporary_after_call hf rfl 4).2.mpr (.inl (by decide +kernel))⟩

/-- A line that calls what is not bound leaves its literal. -/
theorem literal_outlives_failed_call : Session.new.Reachable ∧
    Session.new.statement? "missing:\"a\"".toList =
      some (.call "missing".toList ["_s_1".toList]) ∧
    (evalSource 5 "missing:\"a\"".toList Session.new).failure? =
      some (.fault (.unboundName "missing".toList)) ∧
    (evalSource 5 "missing:\"a\"".toList Session.new).session.scopes.temporary.names =
      ["_s_1".toList] :=
  ⟨.new, by decide +kernel, by decide +kernel, by decide +kernel⟩

end LineScript
