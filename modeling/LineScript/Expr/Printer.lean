import LineScript.Expr.Basic
import LineScript.Text.Quoted

namespace LineScript.Expr

def isCall : Expr → Bool
  | add _ _ | sub _ _ | inc _ => true
  | _ => false

def enclose (e : Expr) (text : Text) : Text :=
  if e.isCall then '(' :: text ++ [')'] else text

def render : Expr → Text
  | number n => Decimal.ofInt n
  | string text => Text.quote text
  | parameter name => name
  | add left right =>
    ['a', 'd', 'd', ':'] ++ left.enclose left.render ++ ',' :: right.enclose right.render
  | sub left right =>
    ['s', 'u', 'b', ':'] ++ left.enclose left.render ++ ',' :: right.enclose right.render
  | inc operand => ['i', 'n', 'c', ':'] ++ operand.enclose operand.render

end LineScript.Expr
