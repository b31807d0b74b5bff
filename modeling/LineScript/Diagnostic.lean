import LineScript.Text.Basic

namespace LineScript

inductive Category where
  | syntaxError
  | lookupError
  | attributeError
  | typeError
  | arityError
  | macroError
  | runtimeError
deriving DecidableEq

namespace Category

def name : Category → Text
  | syntaxError => "SyntaxError".toList
  | lookupError => "LookupError".toList
  | attributeError => "AttributeError".toList
  | typeError => "TypeError".toList
  | arityError => "ArityError".toList
  | macroError => "MacroError".toList
  | runtimeError => "RuntimeError".toList

end Category

structure Diagnostic where
  category : Category
  message : Text
  notes : List Text := []
deriving DecidableEq

namespace Diagnostic

/-- The category and the message, then a line for every note. -/
def render (d : Diagnostic) : Text :=
  d.category.name ++ ": ".toList ++ d.message ++
    d.notes.flatMap fun note => "\n  note: ".toList ++ note

end Diagnostic

end LineScript
