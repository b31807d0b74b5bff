import LineScript.Bindings
import LineScript.Decimal.Double

namespace LineScript

inductive Native where
  | add
  | sub
  | inc
deriving DecidableEq

inductive Callable where
  | native (function : Native)
  | block (body : Text)
deriving DecidableEq

inductive Kind where
  | nothing
  | integer (value : Int64)
  | float (value : Float)
  | string (value : Text)
  | boolean (value : Bool)
  | struct
  | callable (code : Callable)
  | parameterNames (names : List Text)
deriving Inhabited

namespace Kind

def typeName : Kind → Text
  | nothing => "NoneType".toList
  | integer _ => "IntegerType".toList
  | float _ => "FloatType".toList
  | string _ => "StringType".toList
  | boolean _ => "BooleanType".toList
  | struct => "StructType".toList
  | callable _ => "CallableType".toList
  | parameterNames _ => "ArgsType".toList

def text : Kind → Text
  | nothing => "None".toList
  | integer value => Decimal.ofInt value.toInt
  | float value => Decimal.ofDouble value
  | string value => value
  | boolean true => "true".toList
  | boolean false => "false".toList
  | struct => "<StructType: object with fields>".toList
  | callable _ => "<CallableType>".toList
  | parameterNames names => '[' :: Text.join [' '] names ++ [']']

def callable? : Kind → Option Callable
  | callable code => some code
  | _ => none

end Kind

/-- The identity of an object: its place in the store. -/
structure Ref where
  index : Nat
deriving DecidableEq

def Ref.number (ref : Ref) : Nat :=
  ref.index + 1

structure Object where
  kind : Kind
  fields : Bindings Ref := []
deriving Inhabited

end LineScript
