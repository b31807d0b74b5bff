import LineScript.Fault

namespace LineScript

inductive Expr where
  | number (n : Int)
  | string (text : Text)
  | parameter (name : Text)
  | add (left right : Expr)
  | sub (left right : Expr)
  | inc (operand : Expr)
deriving DecidableEq

namespace Expr

inductive Value where
  | number (n : Int)
  | string (text : Text)
deriving DecidableEq

/-- The integer from `-2 ^ 63` up to `2 ^ 63` that differs from `n` by a multiple of `2 ^ 64`. -/
def wrap (n : Int) : Int :=
  Int.bmod n 0x10000000000000000

def Value.typeName : Value → Text
  | number _ => "IntegerType".toList
  | string _ => "StringType".toList

def mismatch (function : Text) (operands : List Value) : Fault :=
  .operandMismatch function (operands.map Value.typeName)

/-- The value of an expression whose parameters denote what `given` says. Operands are evaluated
from left to right, and the first fault counts. -/
def value (given : Text → Value) : Expr → Except Fault Value
  | number n => .ok (.number n)
  | string text => .ok (.string text)
  | parameter name => .ok (given name)
  | add left right => do
    let x ← left.value given
    let y ← right.value given
    match x, y with
    | .number m, .number n => .ok (.number (wrap (m + n)))
    | .string s, .string t => .ok (.string (s ++ t))
    | _, _ => .error (mismatch ['a', 'd', 'd'] [x, y])
  | sub left right => do
    let x ← left.value given
    let y ← right.value given
    match x, y with
    | .number m, .number n => .ok (.number (wrap (m - n)))
    | _, _ => .error (mismatch ['s', 'u', 'b'] [x, y])
  | inc operand => do
    let x ← operand.value given
    match x with
    | .number n => .ok (.number (wrap (n + 1)))
    | _ => .error (mismatch ['i', 'n', 'c'] [x])

end Expr

end LineScript
