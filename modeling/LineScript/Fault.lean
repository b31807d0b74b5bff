import LineScript.Diagnostic
import LineScript.Decimal.Numeral

namespace LineScript

inductive Fault where
  | unbalancedQuotes
  | unrecognised (text : Text)
  | unboundName (name : Text)
  | missingField (receiver field : Text) (known : List Text)
  | notCallable (what : Text)
  | tooManyArguments (expected received : Nat)
  | tooFewArguments (expected received : Nat)
  | integerTooLarge (numeral : Text)
  | integerTooSmall (numeral : Text)
  | missingArgument (function param : Text)
  | operandMismatch (function : Text) (types : List Text)
  | directiveWithoutArgument (name : Text)
  | unknownDirective (name : Text)
  | panic (message : Text)
  | notPersistent (name : Text)
  | notReflectable (name type : Text)
deriving DecidableEq

namespace Fault

def category : Fault → Category
  | unbalancedQuotes | unrecognised _ => .syntaxError
  | unboundName _ | notPersistent _ => .lookupError
  | missingField _ _ _ => .attributeError
  | notCallable _ | operandMismatch _ _ | notReflectable _ _ => .typeError
  | tooManyArguments _ _ | tooFewArguments _ _ | missingArgument _ _ => .arityError
  | directiveWithoutArgument _ | unknownDirective _ => .macroError
  | integerTooLarge _ | integerTooSmall _ | panic _ => .runtimeError

def message : Fault → Text
  | unbalancedQuotes => "string cannot be parsed: unbalanced quotes".toList
  | unrecognised text => "no pattern matches `".toList ++ text ++ "`".toList
  | unboundName name => "no such object in current scope: `".toList ++ name ++ "`".toList
  | missingField receiver field _ =>
    "no such field or method: ".toList ++ receiver ++ ':' :: field
  | notCallable what => what ++ " is not callable".toList
  | tooManyArguments expected received =>
    "too many arguments: expected ".toList ++ Decimal.ofNat expected ++
      " but received ".toList ++ Decimal.ofNat received
  | tooFewArguments expected received =>
    "too few arguments: expected ".toList ++ Decimal.ofNat expected ++
      " but received ".toList ++ Decimal.ofNat received
  | integerTooLarge numeral =>
    "invalid integer literal `".toList ++ numeral ++
      "`: number too large to fit in target type".toList
  | integerTooSmall numeral =>
    "invalid integer literal `".toList ++ numeral ++
      "`: number too small to fit in target type".toList
  | missingArgument function param =>
    "native function ".toList ++ function ++ ": missing argument `".toList ++ param ++ "`".toList
  | operandMismatch function types =>
    "native function ".toList ++ function ++ ": type mismatch (".toList ++
      Text.join [',', ' '] types ++ [')']
  | directiveWithoutArgument name => '!' :: name ++ " expects an argument".toList
  | unknownDirective name => "no such macro definition: !".toList ++ name
  | panic message => message
  | notPersistent name => name ++ " is inexistent".toList
  | notReflectable name type =>
    "cannot reflect ".toList ++ name ++ " (".toList ++ name ++ " is ".toList ++ type ++
      ", not an interpreted callable)".toList

def notes : Fault → List Text
  | missingField receiver _ known =>
    [receiver ++ " has fields [".toList ++ Text.join [',', ' '] known ++ [']']]
  | _ => []

def diagnostic (fault : Fault) : Diagnostic :=
  ⟨fault.category, fault.message, fault.notes⟩

end Fault

/-- Why an evaluation ends without a value: a fault, or the request to end the session. -/
inductive Failure where
  | fault (cause : Fault)
  | exit
deriving DecidableEq

namespace Failure

def display : Failure → Text
  | fault cause => cause.diagnostic.render
  | exit => "session terminated".toList

end Failure

end LineScript
