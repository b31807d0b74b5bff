import LineScript.Object.Basic

namespace LineScript

structure Scopes where
  temporary : Bindings Ref := []
  persistent : Bindings Ref := []
  builtin : Bindings Ref := []

namespace Scopes

def lookup? (scopes : Scopes) (name : Text) : Option Ref :=
  -- Temporary bindings hide persistent ones, and these hide the builtin ones.
  scopes.temporary.get? name <|> scopes.persistent.get? name <|> scopes.builtin.get? name

def assign (scopes : Scopes) (name : Text) (value : Ref) : Scopes :=
  { scopes with persistent := scopes.persistent.insert name value }

def bindTemporary (scopes : Scopes) (name : Text) (value : Ref) : Scopes :=
  { scopes with temporary := scopes.temporary.insert name value }

def bindAll (scopes : Scopes) (bound : List (Text × Ref)) : Scopes :=
  bound.foldl (fun scopes (name, value) => scopes.bindTemporary name value) scopes

def clearTemporary (scopes : Scopes) : Scopes :=
  { scopes with temporary := [] }

theorem lookup?_bindTemporary (scopes : Scopes) (name other : Text) (value : Ref) :
    (scopes.bindTemporary name value).lookup? other =
      if other = name then some value else scopes.lookup? other := by
  simp only [lookup?, bindTemporary, Bindings.get?_insert]
  split <;> simp

end Scopes

end LineScript
