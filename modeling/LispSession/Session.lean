import LispSession.Session.Evaluator
import LispSession.Datum.Reader
import LispSession.Text.Style
/-!
# Sessions

A session takes its sources front to back and reads them datum by datum.  A datum is evaluated; the value is printed if
it came from a console.  This is done in steps, one invocation after the other: each step says what comes next, and one
that breaks off is followed by the step that reports errors.  That step itself is never reported on, so that a broken
channel cannot keep a session busy for ever.

Four steps are wired: `eval`, `read` before it, `handleError`, which goes back to `read`, and, from the first datum of a
console on, `print`, which goes back to `read` as well.
-/
namespace LispSession

/-- The prompt of a console when no datum is open. -/
def primaryPrompt : String := "> "

/-- A session: the chain, the sources to come, where output goes, and what has been written so far, last first. -/
structure Session (σ : Type) where
  chain : Chain
  sources : List Source
  globals : FrameId
  evaluation : σ
  stdout : Channel
  stderr : Channel
  readStep : StepId
  errorStep : StepId
  traceDepth : Nat := 0
  colours : Bool := true
  written : List Writing := []

/-- What a session is given to work with. -/
structure Session.Tools (σ : Type) where
  evaluator : Evaluator σ
  printer : Printer

/-- What a step comes to: the invocation that follows, or nothing more. -/
inductive Session.Outcome where
  | next (i : Option Invocation)
  | failed (why : StepFailure)
  | unfinished

namespace Session

/-- The three steps of a new session, and the numbers of those that read and that report errors. -/
def wire : Chain × StepId × StepId :=
  let (state, chain) := ({} : Chain).addState
  let (eval, chain) := chain.addSharing none .eval state
  let (read, chain) := chain.addSharing (some eval) .read state
  let (error, chain) := chain.addSharing (some read) .handleError state
  ({ chain with states := chain.states.modify state fun s => { s with errorHandler := some error } },
    read, error)

/-- A new session. -/
def start {σ : Type} (sources : List Source) (evaluation : σ) (globals : FrameId)
    (stdout stderr : Channel) : Session σ :=
  let (chain, readStep, errorStep) := wire
  { chain, sources, globals, evaluation, stdout, stderr, readStep, errorStep }

variable {σ : Type}

/-! ## Output -/

/-- Write a line to the standard output. -/
def writeOut (s : Session σ) (line : String) : Session σ × Option String :=
  let text := line ++ "\n"
  let (stdout, taken, why) := s.stdout.write text
  ({ s with stdout, written := ⟨.out, text, taken⟩ :: s.written }, why)

/-- Write a line to the error output. -/
def writeErr (s : Session σ) (line : String) : Session σ × Option String :=
  let text := line ++ "\n"
  let (stderr, taken, why) := s.stderr.write text
  ({ s with stderr, written := ⟨.err, text, taken⟩ :: s.written }, why)

def flushOut (s : Session σ) : Session σ × Option String :=
  let (stdout, why) := s.stdout.flush
  ({ s with stdout }, why)

def flushErr (s : Session σ) : Session σ × Option String :=
  let (stderr, why) := s.stderr.flush
  ({ s with stderr }, why)

/-- Write lines to the error output until one fails. -/
def writeErrLines (s : Session σ) : List String → Session σ × Option String
  | [] => (s, none)
  | line :: lines =>
    match s.writeErr line with
    | (s, some why) => (s, some why)
    | (s, none) => s.writeErrLines lines

/-- Output that cannot be written is a fault. -/
def outputFault (why : String) : Outcome := .failed (.fault ("I/O error: " ++ why))

/-- The outcome of an access to the chain. -/
def Outcome.ofFollow : Except StepFailure (Option Invocation) → Outcome
  | .ok i => .next i
  | .error why => .failed why

/-- The outcome of an invocation. -/
def Outcome.ofInvocation : Except StepFailure Invocation → Outcome
  | .ok i => .next (some i)
  | .error why => .failed why

/-- Change the chain, if that does not fail, and go on. -/
def update (s : Session σ) (change : Except StepFailure Chain)
    (next : Session σ → Session σ × Outcome) : Session σ × Outcome :=
  match change with
  | .ok chain => next { s with chain }
  | .error why => (s, .failed why)

/-! ## Reading -/

/-- The cursor to read from: the one in the slot of the step, or the beginning of the next source.  Also the session
without it. -/
def takeCursor (s : Session σ) (id : StepId) : Except StepFailure (Option Cursor × Session σ) :=
  match s.chain.takeSlot id with
  | .error why => .error why
  | .ok (.cursor c, chain) => .ok (some c, { s with chain })
  | .ok (_, chain) =>
    match s.sources with
    | source :: sources => .ok (some (.start source), { s with chain, sources })
    | [] => .ok (none, { s with chain })

/-- Keep a cursor for the next time, unless its source is used up. -/
def keepCursor (s : Session σ) (id : StepId) (c : Cursor) (next : Session σ → Session σ × Outcome) :
    Session σ × Outcome :=
  if c.isExhausted then next s else s.update (s.chain.fillSlot id (.cursor c)) next

/-- The report of a text that could not be read.  A source that cannot be read is named in front of the message. -/
def readReport (c : Cursor) : ReadFailure → Report
  | .text error excerpt =>
    { message := error.message, diagnostic := some (diagnosticText error excerpt) }
  | .input why => { message := c.name ++ ": " ++ why.message }

/-- Go on after a read: to the evaluation of a datum, to another read, or to the report of an error. -/
def afterRead (s : Session σ) (i : Invocation) (c : Cursor) :
    Except ReadFailure (Option Datum) → Session σ × Outcome
  | .ok none =>
    s.keepCursor i.id c fun s => (s, .ofInvocation (s.chain.invoke i.id .none))
  | .error (.input .interrupted) => (s, .next none)
  | .error (.input (.collapsed text)) => (s, .failed (.panic (some text)))
  | .error (.input why) => (s, .ofInvocation (s.chain.raise i.id (readReport c (.input why))))
  | .error (.text error excerpt) =>
    s.keepCursor i.id c fun s =>
      (s, .ofInvocation (s.chain.raise i.id (readReport c (.text error excerpt))))
  | .ok (some expression) =>
    let target : Except StepFailure (StepId × Chain) :=
      if c.isConsole then s.chain.ensureBefore i.id .print else .ok (i.id, s.chain)
    match target with
    | .error why => (s, .failed why)
    | .ok (target, chain) =>
      let s := { s with chain }
      s.update (s.chain.fillSlot i.id (.cursor c)) fun s =>
      s.update (s.chain.setStatement i.id expression) fun s =>
        let eval := s.chain.follow i (.eval expression s.globals)
        (s, .ofFollow (eval.map fun next => next.map (·.followedBy target)))

/-- The step that reads. -/
def read (s : Session σ) (i : Invocation) : Session σ × Outcome :=
  s.update (s.chain.dropStatement i.id) fun s =>
    match s.takeCursor i.id with
    | .error why => (s, .failed why)
    | .ok (none, s) => (s, .next none)
    | .ok (some c, s) =>
      let c := if c.isConsole then c.withPrompt primaryPrompt else c
      let (c, result) := c.read
      let s := { s with written := c.echoed.reverse ++ s.written }
      s.afterRead i c.dropEcho result

/-! ## Evaluating, printing and reporting -/

/-- The step that evaluates. -/
def eval (tools : Tools σ) (s : Session σ) (i : Invocation) : Session σ × Outcome :=
  match i.payload with
  | .eval expression environment =>
    let (evaluation, verdict) := tools.evaluator.eval s.evaluation expression environment
    let s := { s with evaluation }
    let outcome : Outcome := match verdict with
      | .resume v => .ofFollow (s.chain.follow i (.result v))
      | .raise message expression => .ofInvocation (s.chain.raise i.id { message, expression })
      | .fault message => .failed (.fault message)
      | .panic text => .failed (.panic text)
      | .proceed next => .next next
      | .unfinished => .unfinished
    (s, outcome)
  | other =>
    (s, .failed (.fault ("eval step invoked without an expression: " ++ other.text)))

/-- The step that prints. -/
def print (tools : Tools σ) (s : Session σ) (i : Invocation) : Session σ × Outcome :=
  match i.payload with
  | .result v =>
    match tools.printer v with
    | .error text => (s, .failed (.panic text))
    | .ok text =>
      match s.writeOut text with
      | (s, some why) => (s, outputFault why)
      | (s, none) =>
        match s.flushOut with
        | (s, some why) => (s, outputFault why)
        | (s, none) => (s, .ofFollow (s.chain.follow i .none))
  | other => (s, .failed (.fault ("print step invoked without a result: " ++ other.text)))

/-- After a report: whatever the next step keeps in its slot is dropped, unless it is a cursor, and the session
resumes. -/
def resumeAfterReport (s : Session σ) (i : Invocation) : Session σ × Outcome :=
  let cleared : Except StepFailure Chain :=
    match i.successor with
    | none => .ok s.chain
    | some next =>
      match s.chain.slot next with
      | .error why => .error why
      | .ok kept => if kept.isCursor then .ok s.chain else s.chain.fillSlot next .none
  s.update cleared fun s => (s, .ofFollow (s.chain.follow i (.resume true)))

/-- The lines at the end of a report, which may not be complete for a printer that panics. -/
def reportTail (tools : Tools σ) (report : Report) : List String × Option (Option String) :=
  let diagnostic := report.diagnostic.toList
  match report.expression with
  | none => (diagnostic, none)
  | some expression =>
    match tools.printer expression with
    | .ok text => (("AST: " ++ text) :: diagnostic, none)
    | .error text => ([], some text)

/-- The step that reports errors. -/
def handleError (tools : Tools σ) (s : Session σ) (i : Invocation) : Session σ × Outcome :=
  let report : Report := match i.payload with
    | .error report => report
    | other => { message := "error step invoked without a report: " ++ other.text }
  match s.chain.shared i.id with
  | .error why => (s, .failed why)
  | .ok state =>
    match state.statement.mapM fun d => tools.printer d.toValue with
    | .error text => (s, .failed (.panic text))
    | .ok statement =>
      let (tail, broken) := reportTail tools report
      let head := ("error: " ++ report.message) :: statement.toList.map ("Statement: " ++ ·)
      match s.writeErrLines (head ++ tail) with
      | (s, some why) => (s, outputFault why)
      | (s, none) =>
        match broken with
        | some text => (s, .failed (.panic text))
        | none =>
          match s.flushErr with
          | (s, some why) => (s, outputFault why)
          | (s, none) => s.resumeAfterReport i

/-! ## Running -/

/-- Run one invocation. -/
def perform (tools : Tools σ) (s : Session σ) (i : Invocation) : Session σ × Outcome :=
  match s.chain.stage i.id with
  | .error why => (s, .failed why)
  | .ok .read => s.read i
  | .ok .eval => s.eval tools i
  | .ok .print => s.print tools i
  | .ok .handleError => s.handleError tools i

/-- What follows an invocation that broke off. -/
def afterFailure (s : Session σ) (failed : StepId) (why : StepFailure) : Except StepFailure Invocation :=
  if failed = s.errorStep then s.chain.invoke s.readStep (.resume true)
  else s.chain.invoke s.errorStep (.error { message := why.message })

/-- Show the invocation that comes next, if that is asked for.  Whether it could be written does not matter. -/
def showTrace (s : Session σ) (i : Invocation) : Except StepFailure (Session σ) :=
  if s.traceDepth = 0 then .ok s
  else
    (s.chain.trace i s.traceDepth).map fun text =>
      (s.writeErr (Emphasis.dimmed.apply s.colours text)).1

/-- Where a session stands between two steps: about to run an invocation, at its end, or broken beyond repair. -/
inductive Status where
  | running (i : Invocation)
  | halted
  | crashed (why : StepFailure)
  | unfinished

/-- One step of a session. -/
def step (tools : Tools σ) (s : Session σ) (i : Invocation) : Session σ × Status :=
  match s.showTrace i with
  | .error why => (s, .crashed why)
  | .ok s =>
    match s.perform tools i with
    | (s, .next (some i)) => (s, .running i)
    | (s, .next none) => (s, .halted)
    | (s, .unfinished) => (s, .unfinished)
    | (s, .failed why) =>
      match s.afterFailure i.id why with
      | .ok i => (s, .running i)
      | .error why => (s, .crashed why)

/-- At most so many steps. -/
def runFor (tools : Tools σ) : Nat → Session σ → Status → Session σ × Status
  | fuel + 1, s, .running i =>
    let (s, status) := s.step tools i
    runFor tools fuel s status
  | _, s, status => (s, status)

/-- Where a new session stands: about to read. -/
def initial (s : Session σ) : Status :=
  match s.chain.invoke s.readStep .none with
  | .ok i => .running i
  | .error why => .crashed why

/-- More steps than a session can take over these sources: every few steps something is consumed. -/
def stepBound (sources : List Source) : Nat :=
  16 * sources.foldr (fun source later => (Cursor.start source).pending + 1 + later) 2

/-- Run a session to its end. -/
def run (tools : Tools σ) (s : Session σ) : Session σ × Status :=
  s.runFor tools (stepBound s.sources) s.initial

/-- What the streams show of a session. -/
def transcript (s : Session σ) : List Writing := s.written.reverse

end Session

end LispSession
