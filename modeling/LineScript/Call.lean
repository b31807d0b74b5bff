import LineScript.Session.Eval

namespace LineScript

namespace Native

def operand (function : Native) (param : Text) : Eval Kind := do
  match ← Eval.look fun s => (s.scopes.temporary.get? param).map s.store.kind with
  | some kind => pure kind
  | none => Eval.fault (.missingArgument function.name param)

def run (function : Native) : Eval Ref := do
  let operands ← function.params.mapM function.operand
  match function.result? operands with
  | some kind => Eval.create kind
  | none => Eval.fault (.operandMismatch function.name (operands.map Kind.typeName))

end Native

section

variable (evaluate : Text → Nat → Eval Ref)

def invoke (callable : Ref) (depth : Nat) : Eval Ref := do
  match ← Eval.look fun s => s.store.kind callable with
  | .callable (.native function) => function.run
  | .callable (.block body) => evaluate body (depth + 1)
  | other => Eval.fault (.notCallable other.typeName)

def bindArguments (callable : Ref) (args : List Text) (depth : Nat) : Eval Unit := do
  let params ← Eval.look fun s => s.store.parameters callable
  if params.length < args.length then
    Eval.fault (.tooManyArguments params.length args.length)
  else if args.length < params.length then
    Eval.fault (.tooFewArguments params.length args.length)
  else do
    -- No parameter is bound before all arguments have been evaluated.
    let values ← args.mapM fun arg => evaluate arg (depth + 1)
    Eval.change fun s => s.bindAll (params.zip values)

def endCall (s : Session) : Session :=
  (s.record (.clearing s.scopes.temporary.length)).clearTemporary

/-- Calls a callable; at depth zero the temporary bindings go, however the call ends. -/
def apply (callable : Ref) (args : List Text) (depth : Nat) : Eval Ref :=
  let called : Eval Ref := do
    bindArguments evaluate callable args depth
    invoke evaluate callable depth
  if depth = 0 then called.afterwards endCall else called

end

end LineScript
