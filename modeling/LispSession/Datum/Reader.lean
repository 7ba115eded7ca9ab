import LispSession.Datum.Parser
import LispSession.Token.Lexer
/-!
# Reading data

`Cursor.read` reads one datum.  Before it starts only the current line is looked at, and lines are fetched until one
holds something; on a console one fetched line is enough, and a line without a datum reads as nothing, so that a person
who enters an empty line gets the prompt back.
-/
namespace LispSession

namespace Cursor

/-- Move to the next datum.  Whether there is one; a console is asked for one line at most. -/
def seekDatum (fetched : Bool) (c : Cursor) : Cursor × Except InputFailure Bool :=
  let skipped := c.skipBuffered
  if skipped.hasBuffered then (skipped, .ok true)
  else if fetched && skipped.isConsole then (skipped, .ok false)
  else
    match h : skipped.nextLine with
    | (c', .ok true) =>
      have : c'.pending < c.pending :=
        Nat.lt_of_lt_of_le (pending_nextLine_lt h) (pending_skipBuffered_le c)
      c'.seekDatum true
    | (c', .ok false) => (c', .ok false)
    | (c', .error why) => (c', .error why)
termination_by c.pending

/-- Feed a parser with tokens until it is done. -/
def feedParser (p : Parser) (c : Cursor) : Cursor × Except ReadFailure Datum :=
  match h : c.nextToken with
  | (c', .error failure) => (c', .error failure)
  | (c', .ok none) => (c', .error (c'.reject (p.atEnd c'.offset)))
  | (c', .ok (some t)) =>
    match p.push t with
    | .done d => (c', .ok d)
    | .failed error => (c', .error (c'.reject error))
    | .more p' =>
      have : c'.pending < c.pending := nextToken_pending_lt h
      c'.feedParser p'
termination_by c.pending

/-- Read the next datum: nothing at the end of the source and on a console line without one. -/
def read (c : Cursor) : Cursor × Except ReadFailure (Option Datum) :=
  match c.seekDatum false with
  | (c, .error why) => (c, .error (.input why))
  | (c, .ok false) => (c, .ok none)
  | (c, .ok true) =>
    let (c, result) := c.openDatum.feedParser .start
    (c.closeDatum, result.map some)

end Cursor

end LispSession
