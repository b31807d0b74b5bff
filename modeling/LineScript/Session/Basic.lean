import LineScript.Statement.Basic
import LineScript.Scopes
import LineScript.Native

namespace LineScript

inductive Event where
  | evaluating (traced : Bool) (depth : Nat) (text : Text)
  | classified (statement : Statement)
  | directive (name rest : Text)
  /-- An outermost call has ended and forgets so many temporary bindings. -/
  | clearing (entries : Nat)
  | failed (shown line : Text)
deriving DecidableEq

structure Session where
  store : Store := {}
  scopes : Scopes := {}
  tracing : Bool := false
  literals : Nat := 0
  /-- What has happened, the newest event in front. -/
  log : List Event := []

namespace Session

/-- A session that only knows the builtin names. Its objects are added to those in `store`. -/
def new (store : Store := {}) : Session :=
  let (builtin, store) := Native.install store
  { store, scopes := { builtin } }

def record (session : Session) (event : Event) : Session :=
  { session with log := event :: session.log }

def assign (session : Session) (name : Text) (value : Ref) : Session :=
  { session with scopes := session.scopes.assign name value }

def bindTemporary (session : Session) (name : Text) (value : Ref) : Session :=
  { session with scopes := session.scopes.bindTemporary name value }

def bindAll (session : Session) (bound : List (Text × Ref)) : Session :=
  { session with scopes := session.scopes.bindAll bound }

def clearTemporary (session : Session) : Session :=
  { session with scopes := session.scopes.clearTemporary }

def setField (session : Session) (ref : Ref) (name : Text) (value : Ref) : Session :=
  { session with store := session.store.setField ref name value }

def literalName (n : Nat) : Text :=
  '_' :: 's' :: '_' :: Decimal.ofNat n

def describeLayer (session : Session) (layer : Bindings Ref) : Text :=
  layer.flatMap fun (name, value) =>
    name ++ '\t' :: session.store.typeName value ++ '\t' :: session.store.text value ++ ['\n']

def describeScopes (session : Session) : Text :=
  Text.join ['\n'] [
    "In (persistent scope):\n".toList ++ session.describeLayer session.scopes.persistent,
    "In (temporary scope):\n".toList ++ session.describeLayer session.scopes.temporary,
    "In (builtin scope):\n".toList ++ session.describeLayer session.scopes.builtin]

def describeObject (session : Session) (title : Text) (ref : Ref) : Text :=
  session.store.typeName ref ++ '#' :: Decimal.ofNat ref.number ++ ": ".toList ++
    session.store.text ref ++
    (session.store.fields ref).flatMap fun (name, value) =>
      '\n' :: title ++ ':' :: name ++ '\t' :: session.store.text value ++ "\t(".toList ++
        session.store.typeName value ++ [')']

end Session

end LineScript
