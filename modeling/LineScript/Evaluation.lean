import LineScript.Call
import LineScript.Directive
import LineScript.Statement.Form
import LineScript.Text.Quoted

namespace LineScript

def bindLiteral (literal : Text) : Eval Text := fun s =>
  let number := s.literals + 1
  let name := Session.literalName number
  let (ref, store) := s.store.alloc ⟨.string literal, []⟩
  .value name ({ s with store, literals := number }.bindTemporary name ref)

def performInteger (numeral : Text) : Eval Ref :=
  let n := Decimal.intOf numeral
  if n < Int64.minValue.toInt then Eval.fault (.integerTooSmall numeral)
  else if Int64.maxValue.toInt < n then Eval.fault (.integerTooLarge numeral)
  else Eval.create (.integer (Int64.ofInt n))

/-- A new string that holds the text of a value, the answer of the statements that store one. -/
def answerText (value : Ref) : Eval Ref := do
  let text ← Eval.look fun s => s.store.text value
  Eval.create (.string text)

section

variable (evaluate : Text → Nat → Eval Ref)

def performSequence (parts : List Text) (depth : Nat) : Eval Ref := do
  let start ← Eval.create .nothing
  parts.foldlM (fun _ part => evaluate part (depth + 1)) start

def performFieldCall (receiver field : Text) (args : List Text) (depth : Nat) : Eval Ref := do
  let object ← Eval.resolve receiver
  match ← Eval.look fun s => s.store.field? object field with
  | none => do
    let known ← Eval.look fun s => (s.store.fields object).names
    Eval.fault (.missingField receiver field known)
  | some member =>
    match ← Eval.look fun s => (s.store.kind member).callable? with
    | some _ => apply evaluate member args depth
    -- A member that is no callable is the value, and the arguments are not looked at.
    | none => pure member

def performCall (callee : Text) (args : List Text) (depth : Nat) : Eval Ref := do
  let callable ← Eval.resolve callee
  match ← Eval.look fun s => (s.store.kind callable).callable? with
  | some _ => apply evaluate callable args depth
  | none => Eval.fault (.notCallable callee)

def performAssign (name expr : Text) (depth : Nat) : Eval Ref := do
  let value ← evaluate expr (depth + 1)
  Eval.change fun s => s.assign name value
  answerText value

def performExtend (field expr target : Text) (depth : Nat) : Eval Ref := do
  -- The expression may bind the target anew; what it names before that is extended.
  let object ← Eval.resolve target
  let value ← evaluate expr (depth + 1)
  Eval.change fun s => s.setField object field value
  answerText value

def perform (statement : Statement) (depth : Nat) : Eval Ref :=
  match statement with
  | .comment | .empty => Eval.create .nothing
  | .sequence parts => performSequence evaluate parts depth
  | .assign name expr => performAssign evaluate name expr depth
  | .extend field expr target => performExtend evaluate field expr target depth
  | .fieldCall receiver field args => performFieldCall evaluate receiver field args depth
  | .call callee args => performCall evaluate callee args depth
  | .copy source => do
    let object ← Eval.resolve source
    Eval.onStore fun store => store.copy object
  | .object => Eval.create .struct
  | .block params body => Eval.onStore fun store => store.allocCallable params (.block body)
  | .integer numeral => performInteger numeral
  | .float numeral => Eval.create (.float (Decimal.doubleOf numeral))
  | .boolean value => Eval.create (.boolean value)
  | .directive name rest => Directive.expand evaluate name rest
  | .identifier name => Eval.resolve name
  | .parenthesized inner => evaluate inner (depth + 1)

def performText (text : Text) (depth : Nat) : Eval Ref :=
  match Statement.classify? text with
  | none => Eval.fault (.unrecognised text)
  | some statement => do
    Eval.record (.classified statement)
    perform evaluate statement depth

def performLifted (text : Text) (depth : Nat) : Eval Ref := do
  match ← Text.extractLiterals bindLiteral text with
  | none => Eval.fault .unbalancedQuotes
  | some lifted => performText evaluate lifted depth

def evaluateWith (text : Text) (depth : Nat) : Eval Ref := do
  let tracing ← Eval.look Session.tracing
  Eval.record (.evaluating tracing depth text)
  performLifted evaluate text depth

theorem evaluateWith_apply (text : Text) (depth : Nat) (s : Session) :
    evaluateWith evaluate text depth s =
      performLifted evaluate text depth (s.record (.evaluating s.tracing depth text)) := rfl

end

/-- Evaluates a text; evaluations may nest `fuel` deep. The depth is zero for a whole line and
matters only to calls. -/
def evaluate : Nat → Text → Nat → Eval Ref
  | 0 => fun _ _ => Eval.exhausted
  | fuel + 1 => evaluateWith (evaluate fuel)

theorem evaluate_succ (fuel : Nat) : evaluate (fuel + 1) = evaluateWith (evaluate fuel) := rfl

def evalSource (fuel : Nat) (source : Text) : Eval Ref :=
  evaluate fuel source 0

end LineScript
