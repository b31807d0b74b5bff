import LineScript.Session.Eval
import LineScript.Text.Blank

namespace LineScript

def languageVersion : Text := "0.33.36".toList

def identity : Text :=
  "This is Tsapa version ".toList ++ languageVersion ++ ['.']

/-- The special forms that look at a session or steer it. They are handed the rest of their text
unevaluated. -/
inductive Directive where
  | inspect
  | panic
  | reflect
  | trace
  | scope
  | version
  | exit
deriving DecidableEq

namespace Directive

def table : List (Text × Directive) :=
  [("inspect".toList, inspect), ("panic".toList, panic), ("reflect".toList, reflect),
    ("trace".toList, trace), ("scope".toList, scope), ("version".toList, version),
    ("tsapa".toList, version), ("exit".toList, exit), ("quit".toList, exit)]

def argument (name rest : Text) : Eval Text :=
  let target := Text.trim rest
  if target.isEmpty then Eval.fault (.directiveWithoutArgument name) else pure target

def anonymous : Text := "reflected_object".toList

/-- A new string that describes what the target is bound to persistently, or else evaluates to. -/
def inspectTarget (evaluate : Text → Nat → Eval Ref) (target : Text) : Eval Ref := do
  match ← Eval.look fun s => s.scopes.persistent.get? target with
  | some ref =>
    let report ← Eval.look fun s => s.describeObject target ref
    Eval.create (.string report)
  | none =>
    let ref ← evaluate target 0
    let report ← Eval.look fun s => s.describeObject anonymous ref
    Eval.create (.string report)

def reflectTarget (target : Text) : Eval Ref := do
  match ← Eval.look fun s => s.scopes.persistent.get? target with
  | none => Eval.fault (.notPersistent target)
  | some ref =>
    match ← Eval.look fun s => s.store.kind ref with
    | .callable (.block body) => Eval.create (.string body)
    | other => Eval.fault (.notReflectable target other.typeName)

/-- Evaluates a text with tracing on, and turns tracing off however that ends. -/
def traced (evaluate : Text → Nat → Eval Ref) (text : Text) : Eval Ref := do
  Eval.change fun s => { s with tracing := true }
  (evaluate text 0).afterwards fun s => { s with tracing := false }

def expand (evaluate : Text → Nat → Eval Ref) (name rest : Text) : Eval Ref := do
  Eval.record (.directive name rest)
  match table.lookup name with
  | none => Eval.fault (.unknownDirective name)
  | some inspect => argument name rest >>= inspectTarget evaluate
  | some panic => Eval.fault (.panic rest)
  | some reflect => argument name rest >>= reflectTarget
  | some trace => traced evaluate rest
  | some scope => do
    let report ← Eval.look Session.describeScopes
    Eval.create (.string report)
  | some version => Eval.create (.string identity)
  | some exit => Eval.fail .exit

end Directive

end LineScript
