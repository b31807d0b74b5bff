import LineScript.Proofs.Evaluation.LiftedOnce

namespace LineScript

open Text Eval
open LineScript.Statement (commentMark)

namespace Session

theorem withLiterals_keeps (s : Session) (ls : List Text) :
    s.store.Extends (s.withLiterals ls).store ∧
      (s.withLiterals ls).scopes.persistent = s.scopes.persistent ∧
      (s.withLiterals ls).scopes.builtin = s.scopes.builtin ∧
      (s.withLiterals ls).tracing = s.tracing := by
  induction ls generalizing s with
  | nil => exact ⟨.rfl, rfl, rfl, rfl⟩
  | cons l ls ih =>
    obtain ⟨hstore, hpersistent, hbuiltin, htracing⟩ := ih (s.withLiteral l)
    exact ⟨.trans (.alloc _) hstore, hpersistent, hbuiltin, htracing⟩

theorem opened_literals (s : Session) (line : Text) :
    (s.opened line).literals = s.literals + unescapedQuotes line / 2 := by
  rw [opened, withLiterals_literals, List.length_map, length_quoted]
  rfl

theorem opened_temporary {s : Session} {line name : Text}
    (h : ∀ n, s.literals < n → n ≤ (s.opened line).literals → name ≠ literalName n) :
    (s.opened line).scopes.temporary.get? name = s.scopes.temporary.get? name := by
  rw [opened_literals] at h
  refine withLiterals_temporary fun n hlo hhi => h n hlo ?_
  rw [List.length_map, length_quoted] at hhi
  exact hhi

theorem opened_scopes_of_quoteFree {line : Text} (h : QuoteFree line) (s : Session) :
    (s.opened line).scopes = s.scopes := by
  rw [opened, literals_of_quoteFree h]
  rfl

end Session

theorem unescapedQuotes_comment (text : Text) :
    unescapedQuotes (commentMark ++ text) = unescapedQuotes text := by
  have hsettled : Settled commentMark := by simp [Settled, commentMark]
  rw [unescapedQuotes_append hsettled]
  exact Nat.zero_add _

theorem Statement.classify?_comment (text : Text) :
    classify? (commentMark ++ text) = some .comment := by
  have hmark : commentMark.isPrefixOf (commentMark ++ text) :=
    List.isPrefixOf_iff_prefix.mpr (List.prefix_append _ _)
  rw [classify?, if_pos hmark]

section

variable (s : Session) (text : Text) (fuel : Nat)

theorem evalSource_comment : evalSource (fuel + 1) (commentMark ++ text) s =
    if unescapedQuotes text % 2 = 0 then
      create .nothing ((s.opened (commentMark ++ text)).record (.classified .comment))
    else .failure (.fault .unbalancedQuotes) (s.opened (commentMark ++ text)) := by
  have hsegment : Segment commentMark := .of_plain (by simp [commentMark])
  have hlifted := s.lifted?_append hsegment text
  have hclosed := closed_eq text
  rw [s.lifted?_eq text] at hlifted
  split
  next heven =>
    rw [if_pos (by simpa [hclosed] using heven), Option.map_some] at hlifted
    rw [evalSource_of_lifted? hlifted, performText_of_classify? (Statement.classify?_comment _)]
    rfl
  next hodd =>
    rw [if_neg (by simpa [hclosed] using hodd), Option.map_none] at hlifted
    exact evalSource_of_lifted?_eq_none hlifted fuel

theorem evalSource_comment_answer :
    let outcome := evalSource (fuel + 1) (commentMark ++ text) s
    if unescapedQuotes text % 2 = 0 then
      ∃ ref, outcome = .value ref outcome.session ∧ outcome.session.store.kind ref = .nothing
    else outcome = .failure (.fault .unbalancedQuotes) outcome.session := by
  rw [evalSource_comment]
  by_cases h : unescapedQuotes text % 2 = 0
  · rw [if_pos h, if_pos h]
    exact ⟨_, rfl, congrArg Object.kind (Store.object_alloc_self _ _)⟩
  · rw [if_neg h, if_neg h]
    rfl

theorem evalSource_comment_session :
    let opened := s.opened (commentMark ++ text)
    let t := (evalSource (fuel + 1) (commentMark ++ text) s).session
    opened.store.Extends t.store ∧ t.scopes = opened.scopes ∧ t.tracing = opened.tracing ∧
      t.literals = opened.literals := by
  rw [evalSource_comment]
  generalize s.opened (commentMark ++ text) = opened
  split
  · exact ⟨.alloc _, rfl, rfl, rfl⟩
  · exact ⟨.rfl, rfl, rfl, rfl⟩

theorem evalSource_comment_literals :
    (evalSource (fuel + 1) (commentMark ++ text) s).session.literals =
      s.literals + unescapedQuotes text / 2 := by
  rw [← unescapedQuotes_comment text, ← s.opened_literals]
  exact (evalSource_comment_session s text fuel).2.2.2

/-- An odd quote is seen by the failure, and a pair of them by the literal between. -/
theorem evalSource_comment_inert_iff :
    let outcome := evalSource (fuel + 1) (commentMark ++ text) s
    let t := outcome.session
    (∃ ref, outcome = .value ref t) ∧ t.scopes = s.scopes ∧ t.literals = s.literals ↔
      unescapedQuotes text = 0 := by
  intro outcome t
  have answer := evalSource_comment_answer s text fuel
  have count : t.literals = s.literals + unescapedQuotes text / 2 :=
    evalSource_comment_literals s text fuel
  constructor
  · rintro ⟨⟨ref, hv⟩, -, hl⟩
    have heven : unescapedQuotes text % 2 = 0 := by
      by_contra hodd
      rw [if_neg hodd] at answer
      cases hv.symm.trans answer
    omega
  · intro h
    have hfree : QuoteFree (commentMark ++ text) := (unescapedQuotes_comment text).trans h
    have hscopes : t.scopes = _ := (evalSource_comment_session s text fuel).2.1
    rw [if_pos (by rw [h])] at answer
    obtain ⟨ref, hv, -⟩ := answer
    refine ⟨⟨ref, hv⟩, hscopes.trans (Session.opened_scopes_of_quoteFree hfree s), ?_⟩
    rw [count, h]
    rfl

end

/-- A comment has no value but nothing, and none at all if the number of its unescaped quotes is
odd. It leaves all objects, the persistent and the builtin bindings as they are, but it counts and
binds the literals between its quotes. So it succeeds and leaves bindings and literals alone if and
only if it has no unescaped quotes. -/
theorem comment_inert_iff (s : Session) (text : Text) (fuel : Nat) :
    let outcome := evalSource (fuel + 1) (commentMark ++ text) s
    let t := outcome.session
    (if unescapedQuotes text % 2 = 0 then
      ∃ ref, outcome = .value ref t ∧ t.store.kind ref = .nothing
    else outcome = .failure (.fault .unbalancedQuotes) t) ∧
    s.store.Extends t.store ∧ t.scopes.persistent = s.scopes.persistent ∧
    t.scopes.builtin = s.scopes.builtin ∧ t.tracing = s.tracing ∧
    t.literals = s.literals + unescapedQuotes text / 2 ∧
    (∀ name, (∀ n, s.literals < n → n ≤ t.literals → name ≠ Session.literalName n) →
      t.scopes.temporary.get? name = s.scopes.temporary.get? name) ∧
    ((∃ ref, outcome = .value ref t) ∧ t.scopes = s.scopes ∧ t.literals = s.literals ↔
      unescapedQuotes text = 0) := by
  intro outcome t
  obtain ⟨hstore, hscopes, htracing, hliterals⟩ := evalSource_comment_session s text fuel
  obtain ⟨kstore, kpersistent, kbuiltin, ktracing⟩ :=
    (s.record (.evaluating s.tracing 0 (commentMark ++ text))).withLiterals_keeps
      ((literals (commentMark ++ text)).quoted.map Prod.fst)
  refine ⟨evalSource_comment_answer s text fuel, kstore.trans hstore, ?_, ?_,
    htracing.trans ktracing, evalSource_comment_literals s text fuel, fun name hn => ?_,
    evalSource_comment_inert_iff s text fuel⟩
  · rw [hscopes]
    exact kpersistent
  · rw [hscopes]
    exact kbuiltin
  · rw [hscopes]
    rw [hliterals] at hn
    exact Session.opened_temporary hn

theorem comment_inert_iff_escaped :
    let outcome := evalSource 1 (commentMark ++ " x <- (1; \\\"".toList) Session.new
    (∃ ref, outcome = .value ref outcome.session) ∧
      outcome.session.scopes = Session.new.scopes ∧ outcome.session.literals = 0 :=
  (comment_inert_iff Session.new " x <- (1; \\\"".toList 0).2.2.2.2.2.2.2.mpr (by decide)

/-- One comment binds the literal in it, and another fails for its single quote. -/
theorem comment_not_inert :
    Session.new.Reachable ∧ Session.new.scopes.temporary.names = [] ∧ Session.new.literals = 0 ∧
    (evalSource 1 "// \"a\"".toList Session.new).session.scopes.temporary.names =
      ["_s_1".toList] ∧
    (evalSource 1 "// \"a\"".toList Session.new).session.literals = 1 ∧
    (evalSource 1 "// say \"a".toList Session.new).failure? = some (.fault .unbalancedQuotes) :=
  ⟨.new, rfl, rfl, by decide +kernel, by decide +kernel, by decide +kernel⟩

end LineScript
