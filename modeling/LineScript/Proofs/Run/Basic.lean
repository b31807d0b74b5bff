import Mathlib.Logic.Relation
import LineScript.Proofs.Evaluation.Depth
import LineScript.Proofs.Evaluation.Lifting

namespace LineScript

open Text Eval

inductive Activity where
  | evaluation (text : Text) (depth : Nat)
  | statement (form : Statement) (depth : Nat)
  | call (callable : Ref) (args : List Text) (depth : Nat)
  | invocation (callable : Ref) (depth : Nat)
  | native (function : Native)
  | directive (name rest : Text)

def Activity.perform (fuel : Nat) : Activity → Eval Ref
  | evaluation text depth => evaluate fuel text depth
  | statement form depth => LineScript.perform (evaluate fuel) form depth
  | call callable args depth => apply (evaluate fuel) callable args depth
  | invocation callable depth => invoke (evaluate fuel) callable depth
  | native function => function.run
  | directive name rest => Directive.expand (evaluate fuel) name rest

/-- An activity, how deep evaluations may nest in it, and the session it begins in. The runs that
are started one inside the other form the tree of all that an evaluation does. -/
structure Run where
  activity : Activity
  fuel : Nat
  start : Session

namespace Run

def outcome (r : Run) : Outcome Ref :=
  r.activity.perform r.fuel r.start

def ofLine (fuel : Nat) (line : Text) (s : Session) : Run :=
  ⟨.evaluation line 0, fuel, s⟩

theorem outcome_ofLine (fuel : Nat) (line : Text) (s : Session) :
    (ofLine fuel line s).outcome = evalSource fuel line s := rfl

/-- The second run is started by the first. It begins in the session that the first has come to by
then. -/
inductive Starts : Run → Run → Prop where
  | statement {text lifted : Text} {statement : Statement} {depth fuel : Nat} {s t : Session} :
    extractLiterals bindLiteral text (s.record (.evaluating s.tracing depth text)) =
      .value (some lifted) t →
    Statement.classify? lifted = some statement →
    Starts ⟨.evaluation text depth, fuel + 1, s⟩
      ⟨.statement statement depth, fuel, t.record (.classified statement)⟩
  | part {done rest : List Text} {part : Text} {depth fuel : Nat} {s t : Session} {last : Ref} :
    performSequence (evaluate fuel) done depth s = .value last t →
    Starts ⟨.statement (.sequence (done ++ part :: rest)) depth, fuel, s⟩
      ⟨.evaluation part (depth + 1), fuel, t⟩
  | assigned {name expr : Text} {depth fuel : Nat} {s : Session} :
    Starts ⟨.statement (.assign name expr) depth, fuel, s⟩
      ⟨.evaluation expr (depth + 1), fuel, s⟩
  | stored {field expr target : Text} {depth fuel : Nat} {s : Session} {object : Ref} :
    s.scopes.lookup? target = some object →
    Starts ⟨.statement (.extend field expr target) depth, fuel, s⟩
      ⟨.evaluation expr (depth + 1), fuel, s⟩
  | call {statement : Statement} {args : List Text} {depth fuel : Nat} {s : Session}
    {callable : Ref} :
    s.called? statement = some callable → statement.args? = some args →
    Starts ⟨.statement statement depth, fuel, s⟩ ⟨.call callable args depth, fuel, s⟩
  | directive {name rest : Text} {depth fuel : Nat} {s : Session} :
    Starts ⟨.statement (.directive name rest) depth, fuel, s⟩ ⟨.directive name rest, fuel, s⟩
  | inner {inner : Text} {depth fuel : Nat} {s : Session} :
    Starts ⟨.statement (.parenthesized inner) depth, fuel, s⟩
      ⟨.evaluation inner (depth + 1), fuel, s⟩
  | argument {callable : Ref} {done rest : List Text} {arg : Text} {depth fuel : Nat}
    {s t : Session} {values : List Ref} :
    (s.store.parameters callable).length = (done ++ arg :: rest).length →
    done.mapM (fun arg => evaluate fuel arg (depth + 1)) s = .value values t →
    Starts ⟨.call callable (done ++ arg :: rest) depth, fuel, s⟩
      ⟨.evaluation arg (depth + 1), fuel, t⟩
  | invocation {callable : Ref} {args : List Text} {depth fuel : Nat} {s t : Session} :
    bindArguments (evaluate fuel) callable args depth s = .value () t →
    Starts ⟨.call callable args depth, fuel, s⟩ ⟨.invocation callable depth, fuel, t⟩
  | native {callable : Ref} {function : Native} {depth fuel : Nat} {s : Session} :
    s.store.kind callable = .callable (.native function) →
    Starts ⟨.invocation callable depth, fuel, s⟩ ⟨.native function, fuel, s⟩
  | body {callable : Ref} {body : Text} {depth fuel : Nat} {s : Session} :
    s.store.kind callable = .callable (.block body) →
    Starts ⟨.invocation callable depth, fuel, s⟩ ⟨.evaluation body (depth + 1), fuel, s⟩
  | inspected {name rest : Text} {fuel : Nat} {s : Session} :
    Directive.table.lookup name = some .inspect → (trim rest).isEmpty = false →
    s.scopes.persistent.get? (trim rest) = none →
    Starts ⟨.directive name rest, fuel, s⟩
      ⟨.evaluation (trim rest) 0, fuel, s.record (.directive name rest)⟩
  | traced {name rest : Text} {fuel : Nat} {s : Session} :
    Directive.table.lookup name = some .trace →
    Starts ⟨.directive name rest, fuel, s⟩
      ⟨.evaluation rest 0, fuel, { s.record (.directive name rest) with tracing := true }⟩

theorem Starts.of_quoteFree {text : Text} {form : Statement} (hq : QuoteFree text)
    (hc : Statement.classify? text = some form) (depth fuel : Nat) (s : Session) :
    Starts ⟨.evaluation text depth, fuel + 1, s⟩ ⟨.statement form depth, fuel,
      (s.record (.evaluating s.tracing depth text)).record (.classified form)⟩ :=
  .statement (extractLiterals_of_quoteFree hq _) hc

def Contains : Run → Run → Prop :=
  Relation.ReflTransGen Starts

theorem Contains.call_of_quoteFree {text : Text} {form : Statement} {args : List Text}
    {callable : Ref} {s : Session} (hq : QuoteFree text) (hf : Statement.classify? text = some form)
    (ha : form.args? = some args) (hc : s.called? form = some callable) (depth fuel : Nat) :
    Contains ⟨.evaluation text depth, fuel + 1, s⟩ ⟨.call callable args depth, fuel,
      (s.record (.evaluating s.tracing depth text)).record (.classified form)⟩ := by
  let entered := (s.record (.evaluating s.tracing depth text)).record (.classified form)
  have same : s.SameButLog entered := (Session.SameButLog.rfl.record_right _).record_right _
  have hcalled : entered.called? form = some callable := (same.called?_eq form).symm.trans hc
  exact .tail (.single (.of_quoteFree hq hf depth fuel s)) (.call hcalled ha)

theorem Contains.body_of_call {callable : Ref} {args : List Text} {body : Text} {depth fuel : Nat}
    {s t : Session} (hb : bindArguments (evaluate fuel) callable args depth s = .value () t)
    (hk : (t.store.kind callable).callable? = some (.block body)) :
    Contains ⟨.call callable args depth, fuel, s⟩ ⟨.evaluation body (depth + 1), fuel, t⟩ := by
  have hk : t.store.kind callable = .callable (.block body) := by
    cases h : t.store.kind callable with
    | callable code =>
      rw [h] at hk
      exact congrArg Kind.callable (Option.some.inj hk)
    | _ =>
      rw [h] at hk
      cases hk
  exact .tail (.single (.invocation hb)) (.body hk)

def height (r : Run) : Nat :=
  4 * r.fuel +
    match r.activity with
    | .statement _ _ => 3
    | .call _ _ _ => 2
    | .invocation _ _ | .directive _ _ => 1
    | .evaluation _ _ | .native _ => 0

theorem Starts.height_lt {r r' : Run} (h : r.Starts r') : r'.height < r.height := by
  cases h <;> simp only [height] <;> omega

@[elab_as_elim]
theorem induction {motive : Run → Prop}
    (step : ∀ r, (∀ r', r.Starts r' → motive r') → motive r) (r : Run) : motive r := by
  induction hn : r.height using Nat.strongRecOn generalizing r with
  | ind n ih => exact step r fun r' h => ih r'.height (hn ▸ h.height_lt) r' rfl

end Run

end LineScript
