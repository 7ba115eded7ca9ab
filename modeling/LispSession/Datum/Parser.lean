import LispSession.ReadFailure
import LispSession.Datum
/-!
# From tokens to a datum

A parser is fed one token at a time and answers each with a datum, an error, or the wish for more.  What it keeps
between tokens is the stack of lists and quotes still open, innermost first; the height of the stack is the nesting of
the token that comes next.  A list or quote that would go over the limit makes the whole datum fail, but only after the
tokens up to the end of its outermost list have been skipped, so that none of them is taken for new data.
-/
namespace LispSession

/-- A list or quote still open.  Items are kept last first. -/
inductive OpenForm where
  | list (opener : Span) (items : List Datum)
  | tail (opener : Span) (items : List Datum)
  | quote (place : Span)

namespace OpenForm

/-- A quote is no list. -/
def isList : OpenForm → Bool
  | .quote _ => false
  | _ => true

end OpenForm

/-- What is known of a datum after some of its tokens: the forms still open; a dotted list that can only be closed; or a
datum nested too deep, with so many lists of it still to be closed. -/
inductive Parser where
  | reading (stack : List OpenForm)
  | closing (opener : Span) (items : List Datum) (tail : Datum) (stack : List OpenForm)
  | skipping (place : Span) (unclosed : Nat)

/-- The answer to a token. -/
inductive Parser.Step where
  | more (p : Parser)
  | done (d : Datum)
  | failed (error : SyntaxError)

namespace Parser

/-- Before the first token. -/
def start : Parser := .reading []

/-- A complete datum goes to the innermost open form. -/
def deliver (d : Datum) : List OpenForm → Step
  | [] => .done d
  | .quote _ :: stack => deliver d.quoted stack
  | .list opener items :: stack => .more (.reading (.list opener (d :: items) :: stack))
  | .tail opener items :: stack => .more (.closing opener items d stack)

/-- Open a list or a quote, or give the datum up when the limit is reached. -/
def enter (form : OpenForm) (place : Span) (stack : List OpenForm) : Step :=
  if stack.length < nestingLimit then .more (.reading (form :: stack))
  else
    match (form :: stack).countP OpenForm.isList with
    | 0 => .failed (.nestedTooDeep place)
    | unclosed => .more (.skipping place unclosed)

/-- The answer to a token. -/
def push : Parser → Token → Step
  | .reading stack, ⟨lexeme, span⟩ =>
    match lexeme with
    | .openParen => enter (.list span []) span stack
    | .quote => enter (.quote span) span stack
    | .closeParen =>
      match stack with
      | .list _ items :: stack => deliver (.onto .nil items) stack
      | _ => .failed (.unexpectedToken .closeParen span)
    | .dot =>
      match stack with
      | .list opener (item :: items) :: stack =>
        .more (.reading (.tail opener (item :: items) :: stack))
      | _ => .failed (.unexpectedToken .dot span)
    | .str text => deliver (.str text) stack
    | .num x => deliver (.num x) stack
    | .bool b => deliver (.bool b) stack
    | .sym name => deliver (if name = "nil" then .nil else .sym name) stack
  | .closing opener items tail stack, ⟨lexeme, span⟩ =>
    match lexeme with
    | .closeParen => deliver (.onto tail items) stack
    | found => .failed (.expectedCloseParen opener found.kind span)
  | .skipping place unclosed, ⟨lexeme, _⟩ =>
    match lexeme with
    | .openParen => .more (.skipping place (unclosed + 1))
    | .closeParen =>
      if unclosed ≤ 1 then .failed (.nestedTooDeep place)
      else .more (.skipping place (unclosed - 1))
    | _ => .more (.skipping place unclosed)

/-- What is wrong with a text that ends here, at the given offset. -/
def atEnd (offset : Nat) : Parser → SyntaxError
  | .reading [] => .unterminatedList (.single offset)
  | .reading (.list opener _ :: _) => .unterminatedList opener
  | .reading (.tail opener _ :: _) => .unterminatedList opener
  | .reading (.quote place :: _) => .danglingQuote place
  | .closing opener _ _ _ => .unterminatedList opener
  | .skipping place _ => .nestedTooDeep place

/-- How a parser fares on a finished row of tokens, and the tokens it leaves. -/
def run (offset : Nat) : Parser → List Token → Except SyntaxError Datum × List Token
  | p, [] => (.error (p.atEnd offset), [])
  | p, t :: ts =>
    match p.push t with
    | .more p => run offset p ts
    | .done d => (.ok d, ts)
    | .failed error => (.error error, ts)

end Parser

end LispSession
