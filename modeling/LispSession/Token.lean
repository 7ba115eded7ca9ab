import LispSession.Span
import LispSession.Text.Blank
import LispSession.Decimal.Numeral
/-!
# Tokens

The words of the notation.  A word that is no delimiter and no string is classified by its spelling alone: the dot, the
two booleans, a number, or a symbol; other words that start with `#` mean nothing.
-/
namespace LispSession

/-- What a token says. -/
inductive Lexeme where
  | openParen
  | closeParen
  | quote
  | dot
  | str (text : String)
  | num (x : Float)
  | bool (b : Bool)
  | sym (name : String)

/-- The kinds of token that messages speak of. -/
inductive Lexeme.Kind where
  | openParen | closeParen | quote | dot | string | number | boolean | symbol
  deriving DecidableEq, Repr

namespace Lexeme

def Kind.name : Kind → String
  | .openParen => "OpenParen"
  | .closeParen => "CloseParen"
  | .quote => "Quote"
  | .dot => "Dot"
  | .string => "String"
  | .number => "Number"
  | .boolean => "Boolean"
  | .symbol => "Symbol"

def kind : Lexeme → Kind
  | .openParen => .openParen
  | .closeParen => .closeParen
  | .quote => .quote
  | .dot => .dot
  | .str _ => .string
  | .num _ => .number
  | .bool _ => .boolean
  | .sym _ => .symbol

end Lexeme

/-- A lexeme and where it stands. -/
structure Token where
  lexeme : Lexeme
  span : Span

/-! ## Words -/

/-- A word that is meant as a number: it starts with a digit, or with a sign or a point before a digit or a point. -/
def isNumberLike : List Char → Bool
  | c :: cs =>
    c.isDigit ||
      ((c == '+' || c == '-' || c == '.') && (cs.head?.any fun d => d.isDigit || d == '.'))
  | [] => false

/-- What a word says; nothing for a word that starts with `#` and is no boolean. -/
def classifyWord (word : List Char) : Option Lexeme :=
  if word = ['.'] then some .dot
  else if word = ['#', 't'] then some (.bool true)
  else if word = ['#', 'f'] then some (.bool false)
  else if word.head? = some '#' then none
  else
    match (if isNumberLike word then Numeral.parse? word else none) with
    | some x => some (.num x.toFloat)
    | none => some (.sym (String.ofList word))

end LispSession
