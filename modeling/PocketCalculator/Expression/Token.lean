import PocketCalculator.Expression.Primitive
import PocketCalculator.Number.Layout

/-! # Tokens

The words of plain expressions, and how messages call them.
-/

namespace PocketCalculator

inductive Token
  | number (value : Float)
  | plus
  | minus
  | star
  | slash
  | percent
  | caret
  | opening
  | closing
  | function (f : NamedFunction)
  | constant (c : Constant)
  deriving DecidableEq

namespace Token

def functionLabel : NamedFunction → Text
  | .sin => "Sin".toList
  | .cos => "Cos".toList
  | .tan => "Tan".toList
  | .sqrt => "Sqrt".toList
  | .log10 => "Log10".toList
  | .ln => "Ln".toList

def constantLabel : Constant → Text
  | .pi => "Pi".toList
  | .e => "E".toList

/-- The token as messages call it. -/
def label : Token → Text
  | number x => "Number(".toList ++ Number.quoted x ++ [')']
  | plus => "Plus".toList
  | minus => "Minus".toList
  | star => "Star".toList
  | slash => "Slash".toList
  | percent => "Percent".toList
  | caret => "Caret".toList
  | opening => "Open".toList
  | closing => "Close".toList
  | function f => "Func(".toList ++ functionLabel f ++ [')']
  | constant c => "Const(".toList ++ constantLabel c ++ [')']

def ofSymbol? : Char → Option Token
  | '+' => some plus
  | '-' => some minus
  | '*' => some star
  | '/' => some slash
  | '%' => some percent
  | '^' => some caret
  | '(' => some opening
  | ')' => some closing
  | _ => none

def ofName? (name : Text) : Option Token :=
  (NamedFunction.ofCanonicalName? name).map function <|>
    (Constant.ofCanonicalName? name).map constant

end Token

end PocketCalculator
