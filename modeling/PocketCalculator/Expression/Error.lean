import PocketCalculator.Expression.Token

/-! # Errors of evaluation

Why an expression has no value. An error is of one of two kinds: the text is no expression, or it
is one and the arithmetic has no finite answer.
-/

namespace PocketCalculator

/-- What is wrong with the order of the tokens of an expression, or with a numeral in it. -/
inductive Malformation
  | invalidNumber (numeral : Text)
  | unexpected (token : Token)
  | unexpectedEnd
  | noArgument
  | unclosed (found : Token)
  | tooDeep
  deriving DecidableEq

namespace Malformation

def message : Malformation → Text
  | invalidNumber numeral => "invalid number '".toList ++ numeral ++ ['\'']
  | unexpected token => "unexpected ".toList ++ token.label
  | unexpectedEnd => "unexpected end of expression".toList
  | noArgument => "expected '(' after function name".toList
  | unclosed found => "expected ')', found ".toList ++ found.label
  | tooDeep => "expression nested too deeply".toList

end Malformation

inductive EvalError
  | empty
  | disallowed (text : Text)
  | malformed (cause : Malformation)
  | unbalanced
  | divisionByZero
  | undefinedAt (f : NamedFunction) (x : Float)
  | notFinite
  deriving DecidableEq

inductive ErrorKind
  | malformed
  | domain
  deriving DecidableEq, Repr

namespace EvalError

def kind : EvalError → ErrorKind
  | empty | disallowed _ | malformed _ | unbalanced => .malformed
  | divisionByZero | undefinedAt .. | notFinite => .domain

def message : EvalError → Text
  | empty => "Empty expression".toList
  | disallowed text => "Disallowed input in expression: ".toList ++ text
  | malformed cause => "Malformed expression: ".toList ++ cause.message
  | unbalanced => "Unbalanced parentheses".toList
  | divisionByZero => "Division by zero".toList
  | undefinedAt f x => f.keyName ++ " is undefined for ".toList ++ Number.plain x
  | notFinite => "Result is not a finite number".toList

end EvalError

end PocketCalculator
