import LispSession.Program
import LispSession.Proofs.Progress
/-!
# The plain loop

What a session is for, said without steps: take the sources front to back, read each datum by datum, evaluate every
datum once, show the value of those that came from a console, and report what goes wrong.  An interrupt ends it all; a
source that cannot be read any further is left for the next one; every other error is reported and the same source goes
on.

`Dialogue.run` is this loop.  It is given an evaluator that answers each expression with a value, an error, a fault or a
panic, and the text of every value.
-/
namespace LispSession

/-- What comes of an expression, the session being left to decide what to do next. -/
inductive Reply where
  | value (v : Value)
  | raised (message : String) (expression : Option Value)
  | fault (message : String)
  | panic (text : Option String)

/-- An evaluator with a state of type `σ` that never interferes with the steps of a session. -/
abbrev Replier (σ : Type) := σ → Datum → FrameId → σ × Reply

def Reply.verdict : Reply → Verdict
  | .value v => .resume v
  | .raised message expression => .raise message expression
  | .fault message => .fault message
  | .panic text => .panic text

/-- The evaluator that a session is given, which also keeps the expressions it is handed, and where they are evaluated,
first one first. -/
def Replier.recording {σ : Type} (reply : Replier σ) : Evaluator (σ × List (Datum × FrameId)) where
  eval state d environment :=
    let (evaluation, answer) := reply state.1 d environment
    ((evaluation, state.2 ++ [(d, environment)]), answer.verdict)

/-- A session's tools: such an evaluator, and a printer that never fails. -/
def Replier.tools {σ : Type} (reply : Replier σ) (render : Value → String) :
    Session.Tools (σ × List (Datum × FrameId)) where
  evaluator := reply.recording
  printer v := .ok (render v)

/-- The console shows the primary prompt, where there is one. -/
def Cursor.ready (c : Cursor) : Cursor := if c.isConsole then c.withPrompt primaryPrompt else c

theorem Cursor.pending_ready (c : Cursor) : c.ready.pending = c.pending := by
  unfold ready
  split <;> rfl

theorem Cursor.pending_dropEcho (c : Cursor) : c.dropEcho.pending = c.pending := rfl

theorem Cursor.isConsole_dropEcho (c : Cursor) : c.dropEcho.isConsole = c.isConsole := Option.isSome_map ..

/-- How far the loop has come: the state of the evaluator, what it has been handed, and what has been written, first
things first. -/
structure Dialogue (σ : Type) where
  evaluation : σ
  handed : List (Datum × FrameId) := []
  written : List Writing := []

namespace Dialogue

variable {σ : Type}

/-- Write lines to a stream. -/
def writeLines (r : Dialogue σ) (stream : Stream) (lines : List String) : Dialogue σ :=
  { r with written := r.written ++ lines.map fun line => .whole stream (line ++ "\n") }

/-- What a console has shown during a read. -/
def prompted (r : Dialogue σ) (c : Cursor) : Dialogue σ := { r with written := r.written ++ c.echoed }

section Loop

variable (reply : Replier σ) (render : Value → String) (globals : FrameId)

/-- The lines of a report: the message, the statement under evaluation, the expression to blame and the diagnostic, as
far as there are any. -/
def reportLines (statement : Option Datum) (report : Report) : List String :=
  ["error: " ++ report.message] ++ (statement.map fun d => "Statement: " ++ render d.toValue).toList ++
    (report.expression.map fun v => "AST: " ++ render v).toList ++ report.diagnostic.toList

def report (r : Dialogue σ) (statement : Option Datum) (report : Report) : Dialogue σ :=
  r.writeLines .err (reportLines render statement report)

/-- Evaluate a datum, once, and show what comes of it. -/
def evaluate (console : Bool) (d : Datum) (r : Dialogue σ) : Dialogue σ :=
  let (evaluation, answer) := reply r.evaluation d globals
  let r := { r with evaluation, handed := r.handed ++ [(d, globals)] }
  match answer with
  | .value v => if console then r.writeLines .out [render v] else r
  | .raised message expression => r.report render (some d) { message, expression }
  | .fault message => r.report render (some d) { message }
  | .panic text => r.report render (some d) { message := "panic: " ++ text.getD "unknown panic" }

/-- The message about a source that cannot be read any further: it is named, unless reading itself collapsed. -/
def unreadable (name : String) : InputFailure → String
  | .collapsed text => "panic: " ++ text
  | why => name ++ ": " ++ why.message

/-- Read a source to its end.  Also whether the sources after it are still wanted. -/
def drain (c : Cursor) (r : Dialogue σ) : Dialogue σ × Bool :=
  match h : c.ready.read with
  | (c', .ok none) =>
    if he : c'.isExhausted then (r.prompted c', true)
    else
      have : c'.pending < c.pending := by
        have := (Cursor.read_nothing h).resolve_left he
        rwa [c.pending_ready] at this
      drain c'.dropEcho (r.prompted c')
  | (c', .ok (some d)) =>
    have : c'.pending < c.pending := by
      have := Cursor.read_consumes h (.inl ⟨d, rfl⟩)
      rwa [c.pending_ready] at this
    drain c'.dropEcho ((r.prompted c').evaluate reply render globals c'.isConsole d)
  | (c', .error (.text error excerpt)) =>
    have : c'.pending < c.pending := by
      have := Cursor.read_consumes h (.inr ⟨error, excerpt, rfl⟩)
      rwa [c.pending_ready] at this
    let r := (r.prompted c').report render none
      { message := error.message, diagnostic := some (diagnosticText error excerpt) }
    if c'.isExhausted then (r, true) else drain c'.dropEcho r
  | (c', .error (.input .interrupted)) => (r.prompted c', false)
  | (c', .error (.input why)) => ((r.prompted c').report render none { message := unreadable c'.name why }, true)
termination_by c.pending

/-- Take the sources front to back. -/
def run : List Source → Dialogue σ → Dialogue σ
  | [], r => r
  | source :: later, r =>
    match drain reply render globals (.start source) r with
    | (r, true) => run later r
    | (r, false) => r

end Loop

end Dialogue

end LispSession
