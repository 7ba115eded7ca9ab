import LispSession.Session.Evaluator
/-!
# Rehearsing a session

An evaluator and a printer that misbehave on demand.  The scripted evaluator keeps a list of the expressions it is given
and does what they say: panic, raise, break off, halt, or jump to any step with any parameters; everything else
evaluates to itself.  The jamming printer panics on one symbol.
-/
namespace LispSession

/-- The parameters that a jump names. -/
def jumpPayload (kind : Datum) (content : Datum) (environment : FrameId) : Payload :=
  match kind with
  | .sym "resume" => .resume content.toValue.isTruthy
  | .sym "eval" => .eval content environment
  | .sym "result" => .result content.toValue
  | .sym "error" => .error { message := content.text }
  | _ => .none

/-- The invocation that `(goto STEP SUCCESSOR KIND PAYLOAD)` asks for. -/
def jump? (environment : FrameId) : List Datum → Option Invocation
  | [.sym "goto", .num step, successor, kind, content] =>
    let successor := match successor with
      | .num id => some id.toUInt64.toNat
      | _ => none
    some ⟨step.toUInt64.toNat, successor, jumpPayload kind content environment⟩
  | _ => none

/-- The text that `(panic TEXT)` asks for. -/
def panicText? : List Datum → Option String
  | [.sym "panic", .str text] => some text
  | _ => none

/-- What a script says to do with an expression. -/
def scriptedVerdict (d : Datum) (environment : FrameId) : Verdict :=
  match d with
  | .sym "boom" => .panic (some "evaluator exploded")
  | .sym "panic-any" => .panic none
  | .sym "fail" => .raise "failed on purpose" (some d.toValue)
  | .sym "fail-quietly" => .raise "failed quietly" none
  | .sym "fault" => .fault "scripted fault"
  | .sym "halt" => .proceed none
  | d =>
    let elements := d.toList?.getD []
    match panicText? elements, jump? environment elements with
    | some text, _ => .panic (some text)
    | none, some i => .proceed (some i)
    | none, none => .resume d.toValue

/-- Does what the expressions say, and keeps them, last first. -/
def Evaluator.scripted : Evaluator (List Datum) where
  eval seen d environment := (d :: seen, scriptedVerdict d environment)

/-- Panics on the symbol `jam`. -/
def Printer.jamming : Printer
  | .sym "jam" => .error (some "printer jammed")
  | v => .ok v.text

end LispSession
