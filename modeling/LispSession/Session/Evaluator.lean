import LispSession.Chain
import LispSession.Interpreter
/-!
# What a session delegates

A session leaves evaluation to an evaluator, which keeps a state of its own, and the text of results to a printer, which
may panic.  An evaluator answers an expression with a verdict: go on with a value, raise an error, break off, or say
which step comes next.  The standard ones are the interpreter and the printer of values.
-/
namespace LispSession

/-- What an evaluator makes of an expression.  An evaluation that never comes to an end has no verdict; it is
`unfinished` when it is given up. -/
inductive Verdict where
  | resume (v : Value)
  | raise (message : String) (expression : Option Value)
  | fault (message : String)
  | panic (text : Option String)
  | proceed (next : Option Invocation)
  | unfinished

/-- Evaluates expressions in an environment, with a state of type `σ`. -/
structure Evaluator (σ : Type) where
  eval : σ → Datum → FrameId → σ × Verdict

/-- The text of a value, or the text of a panic, if that has one. -/
abbrev Printer := Value → Except (Option String) String

/-- Writes every value. -/
def Printer.standard : Printer := fun v => .ok v.text

/-- Evaluates by the rules of the language; each expression starts on the lowest level. -/
def Evaluator.standard : Evaluator Interpreter where
  eval i expression environment :=
    let i : Interpreter := { i with machine := { i.machine with depth := 0 } }
    match i.evaluateIn environment expression with
    | (i, .ok v) => (i, .resume v)
    | (i, .error (.raised r)) => (i, .raise r.error.message (some r.blame))
    | (i, .error .stuck) => (i, .panic none)
    | (i, .error .unfinished) => (i, .unfinished)

end LispSession
