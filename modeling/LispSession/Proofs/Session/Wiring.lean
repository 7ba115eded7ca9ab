import LispSession.Session
/-!
# How a session is wired

All a session ever does to its chain is to keep a cursor in the slot of `read`, to note the statement under evaluation,
and to register `print` once.  So its chain is one of a family with three parameters, `Chain.wired`; this module says
what each access to such a chain comes to, and nothing outside of it looks into the registry.
-/
namespace LispSession

/-! The numbers of the four steps. -/

namespace Wiring

abbrev eval : StepId := 0

abbrev read : StepId := 1

abbrev handleError : StepId := 2

abbrev print : StepId := 3

end Wiring

/-! The invocations a session goes through.  Only what follows `eval` is decided anew each time. -/

namespace Invocation

def reading (payload : Payload) : Invocation := ⟨Wiring.read, some Wiring.eval, payload⟩

def evaluating (d : Datum) (environment : FrameId) (successor : StepId) : Invocation :=
  ⟨Wiring.eval, some successor, .eval d environment⟩

def printing (v : Value) : Invocation := ⟨Wiring.print, some Wiring.read, .result v⟩

def reporting (report : Report) : Invocation := ⟨Wiring.handleError, some Wiring.read, .error report⟩

end Invocation

namespace Chain

/-- The step that prints, where it is registered. -/
def printStep (printing : Bool) : Array Step :=
  if printing then #[{ stage := .print, successor := some Wiring.read, state := 0 }] else #[]

/-- The chain of a session: the statement under evaluation, what `read` keeps, and whether `print` is registered. -/
def wired (statement : Option Datum) (slot : Payload) (printing : Bool) : Chain where
  steps :=
    #[{ stage := .eval, successor := none, state := 0 },
      { stage := .read, successor := some Wiring.eval, state := 0, slot },
      { stage := .handleError, successor := some Wiring.read, state := 0 }] ++ printStep printing
  states := #[{ statement, errorHandler := some Wiring.handleError }]

section Access

variable (statement : Option Datum) (slot : Payload) (printing : Bool)

@[simp] theorem stage_read : (wired statement slot printing).stage Wiring.read = .ok .read := by
  cases printing <;> rfl

@[simp] theorem stage_eval : (wired statement slot printing).stage Wiring.eval = .ok .eval := by
  cases printing <;> rfl

@[simp] theorem stage_handleError : (wired statement slot printing).stage Wiring.handleError = .ok .handleError := by
  cases printing <;> rfl

@[simp] theorem stage_print : (wired statement slot true).stage Wiring.print = .ok .print := rfl

@[simp] theorem invoke_read (payload : Payload) :
    (wired statement slot printing).invoke Wiring.read payload = .ok (.reading payload) := by
  cases printing <;> rfl

@[simp] theorem invoke_eval (payload : Payload) :
    (wired statement slot printing).invoke Wiring.eval payload = .ok ⟨Wiring.eval, none, payload⟩ := by
  cases printing <;> rfl

@[simp] theorem invoke_handleError (report : Report) :
    (wired statement slot printing).invoke Wiring.handleError (.error report) = .ok (.reporting report) := by
  cases printing <;> rfl

@[simp] theorem invoke_print (v : Value) :
    (wired statement slot true).invoke Wiring.print (.result v) = .ok (.printing v) := rfl

@[simp] theorem dropStatement_read :
    (wired statement slot printing).dropStatement Wiring.read = .ok (wired none slot printing) := by
  cases printing <;> rfl

@[simp] theorem setStatement_read (d : Datum) :
    (wired statement slot printing).setStatement Wiring.read d = .ok (wired (some d) slot printing) := by
  cases printing <;> rfl

@[simp] theorem slot_read : (wired statement slot printing).slot Wiring.read = .ok slot := by
  cases printing <;> rfl

@[simp] theorem fillSlot_read (payload : Payload) :
    (wired statement slot printing).fillSlot Wiring.read payload = .ok (wired statement payload printing) := by
  cases printing <;> rfl

@[simp] theorem takeSlot_read :
    (wired statement slot printing).takeSlot Wiring.read = .ok (slot, wired statement .none printing) := by
  cases printing <;> rfl

@[simp] theorem shared_handleError :
    (wired statement slot printing).shared Wiring.handleError =
      .ok { statement, errorHandler := some Wiring.handleError } := by
  cases printing <;> rfl

/-- `print` is registered on the first console datum and found again ever after. -/
@[simp] theorem ensureBefore_read :
    (wired statement slot printing).ensureBefore Wiring.read .print =
      .ok (Wiring.print, wired statement slot true) := by
  have state : (wired statement slot printing).state Wiring.read = .ok 0 := by cases printing <;> rfl
  simp only [ensureBefore, state, Except.map]
  cases printing
  · rw [show (wired statement slot false).steps = List.toArray _ from rfl, List.findIdx?_toArray]
    rfl
  · rw [show (wired statement slot true).steps = List.toArray _ from rfl, List.findIdx?_toArray]
    rfl

@[simp] theorem raise_read (report : Report) :
    (wired statement slot printing).raise Wiring.read report = .ok (.reporting report) := by
  cases printing <;> rfl

@[simp] theorem raise_eval (report : Report) :
    (wired statement slot printing).raise Wiring.eval report = .ok (.reporting report) := by
  cases printing <;> rfl

end Access

end Chain

end LispSession
