import LineScript.Proofs.Evaluation.Alike

namespace LineScript

open Eval

variable {related : Session → Session → Prop} {evaluate evaluate' : Text → Nat → Eval Ref}

/-- Functions that evaluate alike whenever their depths are both zero or both not. -/
def EvaluateAlike (related : Session → Session → Prop)
    (evaluate evaluate' : Text → Nat → Eval Ref) : Prop :=
  ∀ text depth depth', (depth = 0 ↔ depth' = 0) →
    Alike related (evaluate text depth) (evaluate' text depth')

theorem EvaluateAlike.nested (h : EvaluateAlike related evaluate evaluate') (text : Text)
    (depth depth' : Nat) :
    Alike related (evaluate text (depth + 1)) (evaluate' text (depth' + 1)) :=
  h text _ _ (by omega)

def Statement.args? : Statement → Option (List Text)
  | fieldCall _ _ args | call _ args => some args
  | _ => none

namespace Unseen

variable (unseen : Unseen related)
include unseen

theorem operand (function : Native) (param : Text) :
    Alike related (function.operand param) (function.operand param) := by
  apply Alike.bind (unseen.look fun _ => rfl)
  intro found
  cases found with
  | none => exact .fault _
  | some kind => exact .pure kind

theorem run (function : Native) : Alike related function.run function.run := by
  apply Alike.bind (.mapM (unseen.operand function) _)
  intro operands
  cases function.result? operands with
  | none => exact .fault _
  | some kind => exact unseen.create kind

omit unseen in
theorem argument (name rest : Text) :
    Alike related (Directive.argument name rest) (Directive.argument name rest) := by
  rw [Directive.argument]
  split
  · exact .fault _
  · exact .pure _

theorem reflectTarget (target : Text) :
    Alike related (Directive.reflectTarget target) (Directive.reflectTarget target) := by
  apply Alike.bind (unseen.look fun _ => rfl)
  intro found
  cases found with
  | none => exact .fault _
  | some ref =>
    apply Alike.bind (unseen.look fun _ => rfl)
    intro kind
    split
    · exact unseen.create _
    · exact .fault _

theorem performInteger (numeral : Text) :
    Alike related (LineScript.performInteger numeral) (LineScript.performInteger numeral) := by
  rw [LineScript.performInteger]
  split
  · exact .fault _
  · split
    · exact .fault _
    · exact unseen.create _

theorem answerText (value : Ref) :
    Alike related (LineScript.answerText value) (LineScript.answerText value) :=
  .bind (unseen.look fun _ => rfl) fun _ => unseen.create _

theorem extractLiterals (text : Text) :
    Alike related (Text.extractLiterals LineScript.bindLiteral text)
      (Text.extractLiterals LineScript.bindLiteral text) :=
  .bind (.mapM (fun _ => .bind (unseen.bindLiteral _) fun _ => .pure _) _) fun _ => .pure _

theorem endCall {s t : Session} (h : related s t) :
    related (LineScript.endCall s) (LineScript.endCall t) :=
  unseen.clearTemporary (unseen.record _ _ h)

variable (nested : EvaluateAlike related evaluate evaluate')
include nested

theorem invoke (callable : Ref) (depth depth' : Nat) :
    Alike related (LineScript.invoke evaluate callable depth)
      (LineScript.invoke evaluate' callable depth') := by
  apply Alike.bind (unseen.look fun _ => rfl)
  intro kind
  split
  · exact unseen.run _
  · exact nested.nested _ _ _
  · exact .fault _

theorem bindArguments (callable : Ref) (args : List Text) (depth depth' : Nat) :
    Alike related (LineScript.bindArguments evaluate callable args depth)
      (LineScript.bindArguments evaluate' callable args depth') := by
  apply Alike.bind (unseen.look fun _ => rfl)
  intro params
  split
  · exact .fault _
  · split
    · exact .fault _
    · exact .bind (.mapM (fun arg => nested.nested arg _ _) args) fun values =>
        unseen.bindAll (params.zip values)

theorem apply (callable : Ref) (args : List Text) {depth depth' : Nat}
    (hd : depth = 0 ↔ depth' = 0) :
    Alike related (LineScript.apply evaluate callable args depth)
      (LineScript.apply evaluate' callable args depth') := by
  have called := Alike.bind (unseen.bindArguments nested callable args depth depth') fun _ =>
    unseen.invoke nested callable depth depth'
  rw [LineScript.apply, LineScript.apply]
  by_cases h : depth = 0
  · rw [if_pos h, if_pos (hd.mp h)]
    exact .afterwards called fun _ _ hu => unseen.endCall hu
  · rw [if_neg h, if_neg (mt hd.mpr h)]
    exact called

theorem inspectTarget (target : Text) :
    Alike related (Directive.inspectTarget evaluate target)
      (Directive.inspectTarget evaluate' target) := by
  apply Alike.bind (unseen.look fun _ => rfl)
  intro found
  cases found with
  | some ref => exact .bind (unseen.look fun _ => rfl) fun _ => unseen.create _
  | none =>
    exact .bind (nested target 0 0 Iff.rfl) fun ref =>
      .bind (unseen.look fun _ => rfl) fun _ => unseen.create _

theorem traced (text : Text) :
    Alike related (Directive.traced evaluate text) (Directive.traced evaluate' text) :=
  .bind (.change fun _ _ h => unseen.tracing true h) fun _ =>
    .afterwards (nested text 0 0 Iff.rfl) fun _ _ h => unseen.tracing false h

theorem expand (name rest : Text) :
    Alike related (Directive.expand evaluate name rest) (Directive.expand evaluate' name rest) := by
  apply Alike.bind (.change fun _ _ h => unseen.record _ _ h)
  intro _
  cases Directive.table.lookup name with
  | none => exact .fault _
  | some directive =>
    cases directive with
    | inspect => exact .bind (argument name rest) fun target => unseen.inspectTarget nested target
    | panic => exact .fault _
    | reflect => exact .bind (argument name rest) fun target => unseen.reflectTarget target
    | trace => exact unseen.traced nested rest
    | scope => exact .bind (unseen.look fun _ => rfl) fun _ => unseen.create _
    | version => exact unseen.create _
    | exit => exact .fail .exit

theorem performSequence (parts : List Text) (depth depth' : Nat) :
    Alike related (LineScript.performSequence evaluate parts depth)
      (LineScript.performSequence evaluate' parts depth') :=
  .bind (unseen.create _) fun start =>
    .foldlM (fun _ part => nested.nested part depth depth') start parts

theorem performAssign (name expr : Text) (depth depth' : Nat) :
    Alike related (LineScript.performAssign evaluate name expr depth)
      (LineScript.performAssign evaluate' name expr depth') :=
  .bind (nested.nested expr depth depth') fun value =>
    .bind (unseen.assign name value) fun _ => unseen.answerText value

theorem performExtend (field expr target : Text) (depth depth' : Nat) :
    Alike related (LineScript.performExtend evaluate field expr target depth)
      (LineScript.performExtend evaluate' field expr target depth') :=
  .bind (unseen.resolve target) fun object =>
    .bind (nested.nested expr depth depth') fun value =>
      .bind (unseen.setField object field value) fun _ => unseen.answerText value

omit nested in
theorem performCall (callee : Text) (args : List Text) {depth depth' : Nat}
    (hargs : ∀ callable, Alike related (LineScript.apply evaluate callable args depth)
      (LineScript.apply evaluate' callable args depth')) :
    Alike related (LineScript.performCall evaluate callee args depth)
      (LineScript.performCall evaluate' callee args depth') := by
  apply Alike.bind (unseen.resolve callee)
  intro callable
  apply Alike.bind (unseen.look fun _ => rfl)
  intro code
  cases code with
  | none => exact .fault _
  | some _ => exact hargs callable

omit nested in
theorem performFieldCall (receiver field : Text) (args : List Text) {depth depth' : Nat}
    (hargs : ∀ callable, Alike related (LineScript.apply evaluate callable args depth)
      (LineScript.apply evaluate' callable args depth')) :
    Alike related (LineScript.performFieldCall evaluate receiver field args depth)
      (LineScript.performFieldCall evaluate' receiver field args depth') := by
  apply Alike.bind (unseen.resolve receiver)
  intro object
  apply Alike.bind (unseen.look fun _ => rfl)
  intro found
  cases found with
  | none => exact .bind (unseen.look fun _ => rfl) fun _ => .fault _
  | some member =>
    apply Alike.bind (unseen.look fun _ => rfl)
    intro code
    cases code with
    | none => exact .pure member
    | some _ => exact hargs member

/-- Performing a statement goes alike at any two depths if its call does, should it be one. -/
theorem perform (statement : Statement) {depth depth' : Nat}
    (hargs : ∀ args, statement.args? = some args → ∀ callable,
      Alike related (LineScript.apply evaluate callable args depth)
        (LineScript.apply evaluate' callable args depth')) :
    Alike related (LineScript.perform evaluate statement depth)
      (LineScript.perform evaluate' statement depth') := by
  cases statement with
  | comment | empty | object => exact unseen.create _
  | sequence parts => exact unseen.performSequence nested parts depth depth'
  | assign name expr => exact unseen.performAssign nested name expr depth depth'
  | extend field expr target => exact unseen.performExtend nested field expr target depth depth'
  | fieldCall receiver field args =>
    exact unseen.performFieldCall receiver field args (hargs args rfl)
  | call callee args => exact unseen.performCall callee args (hargs args rfl)
  | copy source => exact .bind (unseen.resolve source) fun _ => unseen.onStore _
  | block params body =>
    exact unseen.onStore fun store => store.allocCallable params (.block body)
  | integer numeral => exact unseen.performInteger numeral
  | float numeral => exact unseen.create _
  | boolean value => exact unseen.create _
  | directive name rest => exact unseen.expand nested name rest
  | identifier name => exact unseen.resolve name
  | parenthesized inner => exact nested.nested inner depth depth'

theorem performText (text : Text) {depth depth' : Nat} (hd : depth = 0 ↔ depth' = 0) :
    Alike related (LineScript.performText evaluate text depth)
      (LineScript.performText evaluate' text depth') := by
  rw [LineScript.performText, LineScript.performText]
  split
  · exact .fault _
  · apply Alike.bind (.change fun _ _ h => unseen.record _ _ h)
    intro _
    exact unseen.perform nested _ fun args _ callable => unseen.apply nested callable args hd

theorem evaluateWith (text : Text) {depth depth' : Nat} (hd : depth = 0 ↔ depth' = 0) :
    Alike related (LineScript.evaluateWith evaluate text depth)
      (LineScript.evaluateWith evaluate' text depth') := by
  intro s t h
  rw [evaluateWith_apply, evaluateWith_apply]
  refine Alike.bind (unseen.extractLiterals text) (fun lifted => ?_) (unseen.record _ _ h)
  cases lifted with
  | none => exact .fault _
  | some lifted => exact unseen.performText nested lifted hd

end Unseen

theorem evaluate_alike (unseen : Unseen related) (fuel : Nat) :
    EvaluateAlike related (LineScript.evaluate fuel) (LineScript.evaluate fuel) := by
  induction fuel with
  | zero => exact fun _ _ _ _ _ _ h => .exhausted h
  | succ fuel ih => exact fun text _ _ hd => unseen.evaluateWith ih text hd

end LineScript
