import LispSession.Cursor
import LispSession.Token
import LispSession.Text.Quoted
/-!
# Why reading fails

Either the source cannot hand out a line, or the text is not a datum.  A syntax error names the places that explain it;
it is reported together with the text of the datum up to the point where it was noticed, into which these
places point.
-/
namespace LispSession

/-- Lists and quotes nested deeper than this are not read. -/
def nestingLimit : Nat := 256

/-- What is wrong with a text. -/
inductive SyntaxError where
  | unexpectedToken (found : Lexeme.Kind) (place : Span)
  | expectedCloseParen (opener : Span) (found : Lexeme.Kind) (place : Span)
  | unterminatedList (opener : Span)
  | danglingQuote (place : Span)
  | unterminatedString (place : Span)
  | unknownEscape (character : Char) (place : Span)
  | unknownLiteral (text : String) (place : Span)
  | nestedTooDeep (place : Span)
  deriving DecidableEq, Repr

namespace SyntaxError

def message : SyntaxError → String
  | .unexpectedToken found _ => "Unexpected " ++ found.name
  | .expectedCloseParen _ _ _ => "Expected closing parenthesis after dotted tail"
  | .unterminatedList _ => "Unterminated list"
  | .danglingQuote _ => "Unexpected end of input after quote"
  | .unterminatedString _ => "Unterminated string"
  | .unknownEscape character _ => "Unknown escape character " ++ quotedChar character
  | .unknownLiteral text _ => "Unknown literal " ++ text
  | .nestedTooDeep _ => "Data nested more than " ++ toString nestingLimit ++ " levels deep"

/-- The places that explain the error, each with its remark. -/
def labels : SyntaxError → List (Span × String)
  | .unexpectedToken found place => [(place, found.name ++ " is not allowed here")]
  | .expectedCloseParen opener found place =>
    [(opener, "list opened here"), (place, "found " ++ found.name ++ " instead")]
  | .unterminatedList opener => [(opener, "this list is never closed")]
  | .danglingQuote place => [(place, "nothing to quote")]
  | .unterminatedString place => [(place, "String")]
  | .unknownEscape _ place => [(place, "Character found here")]
  | .unknownLiteral _ place => [(place, "found here")]
  | .nestedTooDeep place => [(place, "limit reached here")]

/-- Advice to the writer. -/
def help? : SyntaxError → Option String
  | .unknownLiteral _ _ => some "booleans are written #t and #f"
  | _ => none

end SyntaxError

/-- Why a datum could not be read. -/
inductive ReadFailure where
  | input (why : InputFailure)
  | text (error : SyntaxError) (excerpt : Excerpt)

namespace ReadFailure

def message : ReadFailure → String
  | .input why => why.message
  | .text error _ => error.message

/-- Syntax errors leave the source readable; the others end it. -/
def isSyntactic : ReadFailure → Bool
  | .input _ => false
  | .text _ _ => true

end ReadFailure

/-- A syntax error noticed at this place of the source. -/
def Cursor.reject (c : Cursor) (error : SyntaxError) : ReadFailure := .text error c.excerpt

/-! ## Diagnostics -/

/-- A syntax error as a report shows it.  How a diagnostic is drawn, at which width and in which style, is not settled
here.  These lines stand for the drawing and hold all that it is made from: the message, the advice, each label with its
place, and the name and the text of the source. -/
def diagnosticText (error : SyntaxError) (excerpt : Excerpt) : String :=
  let labels := error.labels.map fun (span, text) =>
    "label " ++ toString span.start ++ "+" ++ toString span.length ++ ": " ++ text
  let help := match error.help? with
    | some help => ["help: " ++ help]
    | none => []
  "\n".intercalate
    (["diagnostic: " ++ error.message] ++ help ++ labels ++
      ["source " ++ excerpt.name ++ " (" ++ toString excerpt.text.utf8ByteSize ++ " bytes)",
        excerpt.text, "end diagnostic"])

end LispSession
