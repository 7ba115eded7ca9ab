import LispSession.Cursor
import LispSession.Value.Printer
/-!
# The chain of steps

A session is a chain of steps: each names the step that follows it, so a chain is a registry of steps by number.  Steps
that are wired together share a state, in which the datum under evaluation and the step that handles errors are kept.
Each step also has a slot of its own, for what has to outlive one invocation.

Numbers can be made up, so every access may fail; nothing else in this module does, but for raising an error where no
step handles errors.
-/
namespace LispSession

abbrev StepId := Nat

abbrev StateId := Nat

inductive Stage where
  | read | eval | print | handleError
  deriving DecidableEq, Repr

def Stage.name : Stage → String
  | .read => "read"
  | .eval => "eval"
  | .print => "print"
  | .handleError => "handle_error"

/-- What is reported of an error: its message, the expression it came from, and a diagnostic of the source text.  A
fault of the program itself could also carry the calls that led to it; which these are is settled by nothing here, so
they are left out. -/
structure Report where
  message : String
  expression : Option Value := none
  diagnostic : Option String := none

/-- What a step is invoked with, or keeps in its slot.  Only what was read is handed on for evaluation, so this is a
datum; it is given labels when it is evaluated. -/
inductive Payload where
  | none
  | resume (recovered : Bool)
  | eval (expression : Datum) (environment : FrameId)
  | result (v : Value)
  | error (report : Report)
  | cursor (c : Cursor)

/-- How many characters of a text a trace shows. -/
def shownLength : Nat := 48

/-- A text in a trace, cut where it is too long. -/
def shorten (text : String) : String :=
  let cs := text.toList
  if shownLength < cs.length then String.ofList (cs.take shownLength) ++ "..." else text

namespace Payload

/-- Parameters as traces show them. -/
def text : Payload → String
  | .none => "\x7b\x7d"
  | .resume recovered => braced "recovered_from_error" (if recovered then "true" else "false")
  | .eval expression _ => braced "expression" (shorten expression.text)
  | .result v => braced "result" (shorten v.text)
  | .error report => braced "message" (shorten report.message)
  | .cursor c => braced "cursor" c.tag
where
  braced (key text : String) : String := "\x7b" ++ key ++ ": " ++ text ++ "\x7d"

def isCursor : Payload → Bool
  | .cursor _ => true
  | _ => false

end Payload

/-- What steps that are wired together share. -/
structure Shared where
  statement : Option Datum := none
  errorHandler : Option StepId := none

structure Step where
  stage : Stage
  successor : Option StepId
  state : StateId
  slot : Payload := .none

/-- A step to be run, with what follows it this time. -/
structure Invocation where
  id : StepId
  successor : Option StepId
  payload : Payload

/-- Go on with another step after this invocation. -/
def Invocation.followedBy (i : Invocation) (successor : StepId) : Invocation :=
  { i with successor := some successor }

/-- Why a step breaks off: a number out of range, an orderly fault, or a panic, which may or may not say why. -/
inductive StepFailure where
  | outOfRange (size index : Nat)
  | fault (message : String)
  | panic (text : Option String)
  deriving DecidableEq, Repr

def StepFailure.message : StepFailure → String
  | .outOfRange size index =>
    "panic: index out of bounds: the len is " ++ toString size ++ " but the index is " ++ toString index
  | .fault message => message
  | .panic (some text) => "panic: " ++ text
  | .panic none => "panic: unknown panic"

/-- All steps of a session and the states they share. -/
structure Chain where
  steps : Array Step := #[]
  states : Array Shared := #[]

namespace Chain

def size (c : Chain) : Nat := c.steps.size

/-- A registered step. -/
def step (c : Chain) (id : StepId) : Except StepFailure Step :=
  match c.steps[id]? with
  | some s => .ok s
  | none => .error (.outOfRange c.steps.size id)

def stage (c : Chain) (id : StepId) : Except StepFailure Stage := (c.step id).map (·.stage)

def successor (c : Chain) (id : StepId) : Except StepFailure (Option StepId) :=
  (c.step id).map (·.successor)

def state (c : Chain) (id : StepId) : Except StepFailure StateId := (c.step id).map (·.state)

/-! ## Wiring -/

/-- A state that no step shares yet. -/
def addState (c : Chain) : StateId × Chain :=
  (c.states.size, { c with states := c.states.push {} })

/-- Register a step that shares the given state. -/
def addSharing (c : Chain) (successor : Option StepId) (stage : Stage) (state : StateId) :
    StepId × Chain :=
  (c.steps.size, { c with steps := c.steps.push { stage, successor, state } })

/-- Register a step that shares the state of its successor, or has one of its own if nothing follows it. -/
def add (c : Chain) (successor : Option StepId) (stage : Stage) :
    Except StepFailure (StepId × Chain) :=
  match successor with
  | some next => (c.state next).map (c.addSharing successor stage)
  | none =>
    let (state, c) := c.addState
    .ok (c.addSharing none stage state)

/-- Register a step that runs before `receiver`. -/
def addBefore (c : Chain) (receiver : StepId) (stage : Stage) : Except StepFailure (StepId × Chain) :=
  c.add (some receiver) stage

/-- The step for a stage that goes on to `successor` and shares its state, registered on first use. -/
def ensureBefore (c : Chain) (successor : StepId) (stage : Stage) : Except StepFailure (StepId × Chain) :=
  (c.state successor).map fun state =>
    match c.steps.findIdx? fun s => s.stage == stage && s.successor == some successor && s.state == state with
    | some id => (id, c)
    | none => c.addSharing (some successor) stage state

/-! ## Invocations -/

/-- An invocation of a step with what is registered as its successor. -/
def invoke (c : Chain) (id : StepId) (payload : Payload) : Except StepFailure Invocation :=
  (c.successor id).map fun successor => ⟨id, successor, payload⟩

/-- The invocation of what follows, if anything does. -/
def follow (c : Chain) (i : Invocation) (payload : Payload) : Except StepFailure (Option Invocation) :=
  match i.successor with
  | none => .ok none
  | some next => (c.invoke next payload).map some

/-! ## Shared states -/

/-- The state that a step shares. -/
def shared (c : Chain) (id : StepId) : Except StepFailure Shared :=
  (c.state id).map fun state => c.states[state]?.getD {}

/-- Change the state that a step shares. -/
def modifyShared (c : Chain) (id : StepId) (f : Shared → Shared) : Except StepFailure Chain :=
  (c.state id).map fun state => { c with states := c.states.modify state f }

/-- Make a step the one that handles errors, for all that share the state of `id`. -/
def setErrorHandler (c : Chain) (id handler : StepId) : Except StepFailure Chain :=
  c.modifyShared id fun s => { s with errorHandler := some handler }

def setStatement (c : Chain) (id : StepId) (statement : Datum) : Except StepFailure Chain :=
  c.modifyShared id fun s => { s with statement := some statement }

def dropStatement (c : Chain) (id : StepId) : Except StepFailure Chain :=
  c.modifyShared id fun s => { s with statement := none }

/-- The invocation of the step that handles errors of `origin`; the message is a fault where there is none. -/
def raise (c : Chain) (origin : StepId) (report : Report) : Except StepFailure Invocation :=
  match c.shared origin with
  | .error failure => .error failure
  | .ok { errorHandler := some handler, .. } => c.invoke handler (.error report)
  | .ok { errorHandler := none, .. } => .error (.fault report.message)

/-! ## Slots -/

/-- What a step keeps in its slot. -/
def slot (c : Chain) (id : StepId) : Except StepFailure Payload := (c.step id).map (·.slot)

/-- Put something into the slot of a step. -/
def fillSlot (c : Chain) (id : StepId) (payload : Payload) : Except StepFailure Chain :=
  if id < c.steps.size then
    .ok { c with steps := c.steps.modify id fun s => { s with slot := payload } }
  else .error (.outOfRange c.steps.size id)

/-- Empty the slot of a step. -/
def takeSlot (c : Chain) (id : StepId) : Except StepFailure (Payload × Chain) :=
  match c.slot id with
  | .error failure => .error failure
  | .ok payload => (c.fillSlot id .none).map fun c => (payload, c)

/-! ## Traces -/

/-- The links that are shown from a step on, at most so many.  The next link is looked up before a link is shown. -/
def links (c : Chain) : Nat → Invocation → Except StepFailure (List String)
  | 0, _ => .ok []
  | depth + 1, i => do
    let next ← match i.successor with
      | none => pure none
      | some id => do
        let s ← c.step id
        pure (some ⟨id, s.successor, s.slot⟩)
    let stage ← c.stage i.id
    let line := "#" ++ toString i.id ++ " " ++ stage.name ++ " " ++ i.payload.text
    match next with
    | none => pure [line]
    | some next => return line :: (← c.links depth next)

/-- An invocation and the steps after it, at most `depth` of them all together. -/
def trace (c : Chain) (i : Invocation) (depth : Nat) : Except StepFailure String :=
  (c.links depth i).map fun lines =>
    "\n".intercalate ((lines.take 1).map ("-> " ++ ·) ++ (lines.drop 1).map ("   " ++ ·))

end Chain

end LispSession
