import LineScript.Proofs.Evaluation.Congruence

namespace LineScript

open Eval

namespace Session

structure SameButLog (s t : Session) : Prop where
  store_eq : s.store = t.store
  scopes_eq : s.scopes = t.scopes
  tracing_eq : s.tracing = t.tracing
  literals_eq : s.literals = t.literals

theorem SameButLog.rfl {s : Session} : SameButLog s s :=
  ⟨Eq.refl _, Eq.refl _, Eq.refl _, Eq.refl _⟩

theorem SameButLog.record {s t : Session} (e e' : Event) (h : SameButLog s t) :
    SameButLog (s.record e) (t.record e') :=
  ⟨h.store_eq, h.scopes_eq, h.tracing_eq, h.literals_eq⟩

theorem SameButLog.record_left {s t : Session} (e : Event) (h : SameButLog s t) :
    SameButLog (s.record e) t :=
  ⟨h.store_eq, h.scopes_eq, h.tracing_eq, h.literals_eq⟩

theorem SameButLog.record_right {s t : Session} (e : Event) (h : SameButLog s t) :
    SameButLog s (t.record e) :=
  ⟨h.store_eq, h.scopes_eq, h.tracing_eq, h.literals_eq⟩

theorem SameButLog.unseen : Unseen SameButLog where
  store_eq := SameButLog.store_eq
  scopes_eq := SameButLog.scopes_eq
  literals_eq := SameButLog.literals_eq
  record := SameButLog.record
  tracing _ h := ⟨h.store_eq, h.scopes_eq, Eq.refl _, h.literals_eq⟩
  hold _ _ _ h := ⟨Eq.refl _, Eq.refl _, h.tracing_eq, Eq.refl _⟩

def callable? (s : Session) (found : Option Ref) : Option Ref :=
  found.filter fun ref => (s.store.kind ref).callable?.isSome

/-- The callable that a statement is a call of: what the callee is bound to, or the member of the
receiver. -/
def called? (s : Session) : Statement → Option Ref
  | .call callee _ => s.callable? (s.scopes.lookup? callee)
  | .fieldCall receiver field _ =>
    (s.scopes.lookup? receiver).bind fun object => s.callable? (s.store.field? object field)
  | _ => none

def callsText (s : Session) (text : Text) : Bool :=
  ((Statement.classify? text).bind s.called?).isSome

def calls (s : Session) (text : Text) : Bool :=
  match Text.extractLiterals bindLiteral text s with
  | .value (some lifted) t => t.callsText lifted
  | _ => false

theorem SameButLog.called?_eq {s t : Session} (h : SameButLog s t) (statement : Statement) :
    s.called? statement = t.called? statement := by
  have hc : s.callable? = t.callable? := by
    funext found
    simp only [callable?, h.store_eq]
  cases statement <;> simp only [called?, hc, h.store_eq, h.scopes_eq]

theorem SameButLog.callsText_eq {s t : Session} (h : SameButLog s t) (text : Text) :
    s.callsText text = t.callsText text := by
  have hs : s.called? = t.called? := funext h.called?_eq
  rw [callsText, callsText, hs]

theorem SameButLog.calls_eq {s t : Session} (h : SameButLog s t) (text : Text) :
    s.calls text = t.calls text := by
  have hl := SameButLog.unseen.extractLiterals text h
  rw [calls, calls]
  generalize Text.extractLiterals bindLiteral text s = o at hl
  generalize Text.extractLiterals bindLiteral text t = o' at hl
  cases hl with
  | value lifted hu =>
    cases lifted with
    | none => rfl
    | some lifted => exact hu.callsText_eq lifted
  | failure why hu => rfl
  | exhausted hu => rfl

def endingIf (calls : Bool) : Session → Session :=
  if calls then clearTemporary else id

end Session

open Session

section

variable {evaluate evaluate' : Text → Nat → Eval Ref}

theorem perform_of_called {s : Session} {statement : Statement} {callable : Ref}
    (h : s.called? statement = some callable) :
    ∃ args, statement.args? = some args ∧ ∀ (evaluate : Text → Nat → Eval Ref) (depth : Nat),
      perform evaluate statement depth s = apply evaluate callable args depth s := by
  cases statement with
  | call callee args =>
    obtain ⟨hl, hc⟩ := Option.filter_eq_some_iff.mp h
    obtain ⟨code, hc⟩ := Option.isSome_iff_exists.mp hc
    refine ⟨args, rfl, fun evaluate depth => ?_⟩
    simp only [perform, performCall, bind_apply, resolve_apply, look_apply, hl, hc]
  | fieldCall receiver field args =>
    obtain ⟨object, hl, hm⟩ := Option.bind_eq_some_iff.mp h
    obtain ⟨hm, hc⟩ := Option.filter_eq_some_iff.mp hm
    obtain ⟨code, hc⟩ := Option.isSome_iff_exists.mp hc
    refine ⟨args, rfl, fun evaluate depth => ?_⟩
    simp only [perform, performFieldCall, bind_apply, resolve_apply, look_apply, hl, hm, hc]
  | _ => cases h

/-- A call of nothing that can be called ends where it is, at whatever depth. -/
theorem perform_of_not_called {s : Session} {statement : Statement} {args : List Text}
    (h : s.called? statement = none) (hargs : statement.args? = some args) :
    ∃ o : Outcome Ref, o.session = s ∧ ∀ (evaluate : Text → Nat → Eval Ref) (depth : Nat),
      perform evaluate statement depth s = o := by
  cases statement with
  | call callee args =>
    cases hl : s.scopes.lookup? callee with
    | none =>
      refine ⟨.failure (.fault (.unboundName callee)) s, rfl, fun evaluate depth => ?_⟩
      simp only [perform, performCall, bind_apply, resolve_apply, hl]
    | some ref =>
      cases hc : (s.store.kind ref).callable? with
      | none =>
        refine ⟨.failure (.fault (.notCallable callee)) s, rfl, fun evaluate depth => ?_⟩
        simp only [perform, performCall, bind_apply, resolve_apply, look_apply, hl, hc]
        rfl
      | some code => simp [called?, Session.callable?, hl, hc] at h
  | fieldCall receiver field args =>
    cases hl : s.scopes.lookup? receiver with
    | none =>
      refine ⟨.failure (.fault (.unboundName receiver)) s, rfl, fun evaluate depth => ?_⟩
      simp only [perform, performFieldCall, bind_apply, resolve_apply, hl]
    | some object =>
      cases hm : s.store.field? object field with
      | none =>
        let known := (s.store.fields object).names
        refine ⟨.failure (.fault (.missingField receiver field known)) s, rfl,
          fun evaluate depth => ?_⟩
        simp only [perform, performFieldCall, bind_apply, resolve_apply, look_apply, hl, hm]
        rfl
      | some member =>
        cases hc : (s.store.kind member).callable? with
        | none =>
          refine ⟨.value member s, rfl, fun evaluate depth => ?_⟩
          simp only [perform, performFieldCall, bind_apply, resolve_apply, look_apply, hl, hm, hc]
          rfl
        | some code => simp [called?, Session.callable?, hl, hm, hc] at h
  | _ => cases hargs

theorem apply_zero_alike (nested : EvaluateAlike SameButLog evaluate evaluate') (callable : Ref)
    (args : List Text) {s t : Session} (h : SameButLog s t) :
    (apply evaluate callable args 0 s).Alike SameButLog
      ((apply evaluate' callable args 1 t).mapSession clearTemporary) := by
  have called := Alike.bind (SameButLog.unseen.bindArguments nested callable args 0 1) fun _ =>
    SameButLog.unseen.invoke nested callable 0 1
  exact (called h).mapSession fun _ _ hu =>
    SameButLog.unseen.clearTemporary ⟨hu.store_eq, hu.scopes_eq, hu.tracing_eq, hu.literals_eq⟩

theorem perform_zero_alike (nested : EvaluateAlike SameButLog evaluate evaluate')
    (statement : Statement) {s t : Session} (h : SameButLog s t) :
    (perform evaluate statement 0 s).Alike SameButLog
      ((perform evaluate' statement 1 t).mapSession (endingIf (t.called? statement).isSome)) := by
  have hst := h.called?_eq statement
  cases hc : t.called? statement with
  | some callable =>
    obtain ⟨args, ha, hp⟩ := perform_of_called hc
    obtain ⟨args', ha', hp'⟩ := perform_of_called (hst.trans hc)
    cases ha.symm.trans ha'
    rw [hp, hp']
    exact apply_zero_alike nested callable args h
  | none =>
    rw [endingIf, Option.isSome_none, if_neg Bool.false_ne_true, Outcome.mapSession_id]
    cases ha : statement.args? with
    | none =>
      exact SameButLog.unseen.perform nested statement (by simp [ha]) h
    | some args =>
      obtain ⟨o, -, ho⟩ := perform_of_not_called (hst.trans hc) ha
      rw [ho evaluate 0, ← ho evaluate 1]
      exact SameButLog.unseen.perform nested statement
        (fun args _ callable => SameButLog.unseen.apply nested callable args Iff.rfl) h

theorem performText_zero_alike (nested : EvaluateAlike SameButLog evaluate evaluate') (text : Text)
    {s t : Session} (h : SameButLog s t) :
    (performText evaluate text 0 s).Alike SameButLog
      ((performText evaluate' text 1 t).mapSession (endingIf (t.callsText text))) := by
  rw [performText, performText, callsText]
  cases Statement.classify? text with
  | none => exact .failure _ h
  | some statement => exact perform_zero_alike nested statement (h.record _ _)

theorem performLifted_zero_alike (nested : EvaluateAlike SameButLog evaluate evaluate')
    (text : Text) {s t : Session} (h : SameButLog s t) :
    (performLifted evaluate text 0 s).Alike SameButLog
      ((performLifted evaluate' text 1 t).mapSession (endingIf (t.calls text))) := by
  rw [performLifted, performLifted, calls, bind_apply, bind_apply]
  have hl := SameButLog.unseen.extractLiterals text h
  generalize Text.extractLiterals bindLiteral text s = o at hl
  generalize Text.extractLiterals bindLiteral text t = o' at hl
  cases hl with
  | value lifted hu =>
    cases lifted with
    | none => exact .failure _ hu
    | some lifted => exact performText_zero_alike nested lifted hu
  | failure why hu => exact .failure why hu
  | exhausted hu => exact .exhausted hu

theorem evaluateWith_zero_alike (nested : EvaluateAlike SameButLog evaluate evaluate')
    (text : Text) (s : Session) :
    (evaluateWith evaluate text 0 s).Alike SameButLog
      ((evaluateWith evaluate' text 1 s).mapSession (endingIf (s.calls text))) := by
  rw [evaluateWith_apply, evaluateWith_apply, (SameButLog.rfl.record_right _).calls_eq text]
  exact performLifted_zero_alike nested text (SameButLog.rfl.record _ _)

end

end LineScript
