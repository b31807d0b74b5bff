import LineScript.Object.Store

namespace LineScript.Native

def name : Native → Text
  | add => ['a', 'd', 'd']
  | sub => ['s', 'u', 'b']
  | inc => ['i', 'n', 'c']

def left : Text := ['_', '_', 'x']

def right : Text := ['_', '_', 'y']

def params : Native → List Text
  | add | sub => [left, right]
  | inc => [left]

/-- The value of a function at operands of the right kinds. -/
def result? : Native → List Kind → Option Kind
  | add, [.integer x, .integer y] => some (.integer (x + y))
  | add, [.string x, .string y] => some (.string (x ++ y))
  | add, [.float x, .float y] => some (.float (x + y))
  | sub, [.integer x, .integer y] => some (.integer (x - y))
  | sub, [.float x, .float y] => some (.float (x - y))
  | inc, [.integer x] => some (.integer (x + 1))
  | _, _ => none

def noneName : Text := ['n', 'o', 'n', 'e']

def install (store : Store) : Bindings Ref × Store :=
  let (nothing, store) := store.alloc ⟨.nothing, []⟩
  let (addRef, store) := store.allocCallable add.params (.native add)
  let (subRef, store) := store.allocCallable sub.params (.native sub)
  let (incRef, store) := store.allocCallable inc.params (.native inc)
  ([(noneName, nothing), (add.name, addRef), (sub.name, subRef), (inc.name, incRef)], store)

end LineScript.Native
