import LineScript.Proofs.Run.Temporary

namespace LineScript

open Text Eval

theorem Run.ofLine_starts {s : Session} {line : Text} {form : Statement}
    (h : s.statement? line = some form) (fuel : Nat) : (Run.ofLine (fuel + 1) line s).Starts
      ⟨.statement form 0, fuel, (s.opened line).record (.classified form)⟩ := by
  obtain ⟨lifted, hc, hl⟩ := Session.lifted_of_statement? h
  exact .statement hl hc

theorem exists_of_performAssign {evaluate : Text → Nat → Eval Ref} {name expr : Text} {depth : Nat}
    {answer : Ref} {s t : Session}
    (h : performAssign evaluate name expr depth s = .value answer t) :
    ∃ value u, evaluate expr (depth + 1) s = .value value u ∧
      t.scopes = u.scopes.assign name value := by
  obtain ⟨value, u, hv, hu⟩ := exists_of_bind_eq_value h
  cases hu
  exact ⟨value, u, hv, rfl⟩

theorem bound_of_temporary {s : Session} (hs : s.Reachable) {line : Text} {form : Statement}
    (hf : s.statement? line = some form) (fuel : Nat) (name : Text) :
    let t := (evalSource (fuel + 1) line s).session
    (t.scopes.temporary.get? name).isSome → (s.scopes.temporary.get? name).isSome ∨
      (∃ n, s.literals < n ∧ n ≤ t.literals ∧ name = Session.literalName n) ∨
      ∃ r, (Run.ofLine (fuel + 1) line s).Contains r ∧ r.Binds name := by
  intro t ht
  have hstart := Run.ofLine_starts hf fuel
  by_contra hn
  obtain ⟨hearlier, hn⟩ := not_or.mp hn
  obtain ⟨hliteral, hcall⟩ := not_or.mp hn
  have literals_eq : t.literals = s.literals + ((literals line).quoted.map Prod.fst).length := by
    rw [(evalSource_changes hs.bodies fuel line).1.literals_eq, Session.opened,
      Session.withLiterals_literals]
    rfl
  have hopened : (s.opened line).scopes.temporary.get? name = s.scopes.temporary.get? name := by
    refine Session.withLiterals_temporary fun n hlo hhi he => hliteral ⟨n, hlo, ?_, he⟩
    rw [literals_eq]
    exact hhi
  -- If nothing in the line binds the name, its binding is the earlier one or gone.
  have hrun := Run.temporary (hstart.quoteFree hs.bodies) fun inner hc hb =>
    hcall ⟨inner, .head hstart hc, hb⟩
  have hsession : Run.outcome ⟨.statement form 0, fuel, (s.opened line).record (.classified form)⟩ =
      evalSource (fuel + 1) line s := (evalSource_of_statement? hf fuel).symm
  rw [hsession] at hrun
  obtain he | ⟨-, he⟩ := hrun
  · have he : t.scopes.temporary.get? name = s.scopes.temporary.get? name := he.trans hopened
    rw [he] at ht
    exact hearlier ht
  · have he : t.scopes.temporary.get? name = none := he
    rw [he] at ht
    cases ht

/-- A line that assigns to a name gives it the very value of the expression: the name alone, as the
next line, has that value unless it is bound temporarily by then, and only an earlier line, a
literal of the line or the parameter of a call made in it can have bound it. -/
theorem assignment_reads_back {s : Session} (hs : s.Reachable) {line name expr : Text}
    (hf : s.statement? line = some (.assign name expr)) (hname : isName name)
    (hi : Statement.classify? name = some (.identifier name)) {fuel : Nat} {answer : Ref}
    {t : Session} (ha : evalSource (fuel + 1) line s = .value answer t) :
    ∃ value u, evaluate fuel expr 1 ((s.opened line).record (.classified (.assign name expr))) =
        .value value u ∧
      (∀ n, ∃ v, evalSource (n + 1) name t =
        .value ((t.scopes.temporary.get? name).getD value) v) ∧
      ((t.scopes.temporary.get? name).isSome → (s.scopes.temporary.get? name).isSome ∨
        (∃ n, s.literals < n ∧ n ≤ t.literals ∧ name = Session.literalName n) ∨
        ∃ r, (Run.ofLine (fuel + 1) line s).Contains r ∧ r.Binds name) := by
  have hbound := bound_of_temporary hs hf fuel name
  rw [ha] at hbound
  rw [evalSource_of_statement? hf] at ha
  obtain ⟨value, u, hv, ht⟩ := exists_of_performAssign ha
  refine ⟨value, u, hv, fun n => ?_, hbound⟩
  have hq : QuoteFree name := quoteFree_of_all (Bool.and_eq_true_iff.mp hname).2 rfl rfl
  have hl : t.scopes.lookup? name = some ((t.scopes.temporary.get? name).getD value) := by
    rw [Scopes.lookup?, ht]
    simp only [Scopes.assign, Bindings.get?_insert, if_true]
    cases u.scopes.temporary.get? name <;> rfl
  rw [evalSource, evaluate_of_classify? hq hi]
  exact ⟨_, resolve_of_lookup? hl⟩

theorem assignment_reads_back_concatenation : ∃ answer t value u,
    evalSource (8 + 1) "x <- add:\"a\",(add:\"b\",\"c\")".toList Session.new = .value answer t ∧
    evaluate 8 "add:_s_1,(add:_s_2,_s_3)".toList 1
      ((Session.new.opened "x <- add:\"a\",(add:\"b\",\"c\")".toList).record
        (.classified (.assign ['x'] "add:_s_1,(add:_s_2,_s_3)".toList))) = .value value u ∧
    ∀ n, ∃ v, evalSource (n + 1) ['x'] t = .value value v := by
  have hf : Session.new.statement? "x <- add:\"a\",(add:\"b\",\"c\")".toList =
      some (.assign ['x'] "add:_s_1,(add:_s_2,_s_3)".toList) := by decide +kernel
  have ha : (evalSource (8 + 1) "x <- add:\"a\",(add:\"b\",\"c\")".toList Session.new).value? =
      some ⟨12⟩ := by decide +kernel
  have ht : (evalSource (8 + 1) "x <- add:\"a\",(add:\"b\",\"c\")".toList
      Session.new).session.scopes.temporary.get? ['x'] = none := by decide +kernel
  obtain ⟨value, u, hv, hread, -⟩ := assignment_reads_back .new hf (by decide +kernel)
    (by decide +kernel) (Outcome.eq_of_value? ha)
  rw [ht] at hread
  exact ⟨_, _, value, u, Outcome.eq_of_value? ha, hv, hread⟩

/-- A call in the expression has left its parameter bound, and the name is that parameter. -/
theorem assignment_hidden_by_parameter : ∃ s answer t value u other v, s.Reachable ∧
    s.statement? "x <- g:5".toList = some (.assign ['x'] "g:5".toList) ∧
    evalSource 9 "x <- g:5".toList s = .value answer t ∧
    evaluate 8 "g:5".toList 1 ((s.opened "x <- g:5".toList).record
      (.classified (.assign ['x'] "g:5".toList))) = .value value u ∧
    evalSource 9 ['x'] t = .value other v ∧ other ≠ value ∧
    v.store.text value = ['7'] ∧ v.store.text other = ['5'] := by
  let s := (evalSource 9 "g <- [x|7]".toList Session.new).session
  have hg : (evalSource 9 "g <- [x|7]".toList Session.new).value? = some ⟨9⟩ := by decide +kernel
  have hs : s.Reachable := Session.Reachable.new.line_of_value? hg
  have hline : (evalSource 9 "x <- g:5".toList s).value? = some ⟨12⟩ := by decide +kernel
  have hvalue : (evaluate 8 "g:5".toList 1 ((s.opened "x <- g:5".toList).record
      (.classified (.assign ['x'] "g:5".toList)))).value? = some ⟨11⟩ := by decide +kernel
  have hread : (evalSource 9 ['x'] (evalSource 9 "x <- g:5".toList s).session).value? =
      some ⟨10⟩ := by decide +kernel
  exact ⟨s, ⟨12⟩, _, ⟨11⟩, _, ⟨10⟩, _, hs, by decide +kernel, Outcome.eq_of_value? hline,
    Outcome.eq_of_value? hvalue, Outcome.eq_of_value? hread, by decide, by decide +kernel,
    by decide +kernel⟩

end LineScript
