import LineScript.Text.Basic

namespace LineScript

/-- The forms of statements. The texts inside a form are pieces of the statement's own text, not yet
read any further. -/
inductive Statement where
  | comment
  | empty
  | sequence (parts : List Text)
  | assign (name expr : Text)
  | extend (field expr target : Text)
  | fieldCall (receiver field : Text) (args : List Text)
  | call (callee : Text) (args : List Text)
  | copy (source : Text)
  | object
  | block (params : List Text) (body : Text)
  | integer (numeral : Text)
  | float (numeral : Text)
  | boolean (value : Bool)
  | directive (name rest : Text)
  | identifier (name : Text)
  | parenthesized (inner : Text)
deriving DecidableEq

namespace Statement

def label : Statement → Text
  | comment => "comment".toList
  | empty => "empty".toList
  | sequence _ => "sequence".toList
  | assign _ _ => "assignment".toList
  | extend _ _ _ => "extends-assignment".toList
  | fieldCall _ _ _ => "field-call".toList
  | call _ _ => "call".toList
  | copy _ => "copy".toList
  | object => "object".toList
  | block _ _ => "block".toList
  | integer _ => "integer".toList
  | float _ => "float".toList
  | boolean _ => "boolean".toList
  | directive _ _ => "macro".toList
  | identifier _ => "identifier".toList
  | parenthesized _ => "parenthesized".toList

end Statement

end LineScript
