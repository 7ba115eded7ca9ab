import LispSession.Evaluation
/-!
# The interpreter

An interpreter is a machine with a global frame, in which the primitives and the arguments of the script are bound, and
a limit on the nesting of evaluation.
-/
namespace LispSession

/-- The nesting of evaluation that is allowed unless something else is asked for. -/
def defaultDepthLimit : Nat := 400

/-- Rounds of evaluation on one level, more than any machine can run: `2 ^ 60`. -/
def evaluationFuel : Nat := 0x1000000000000000

/-- A frame that binds the primitives by name, and `*args*` to the list of the script's arguments. -/
def Store.addGlobals (s : Store) (args : List String) : FrameId × Store :=
  let (list, s) := s.place (.ofList (args.map .str))
  let primitives := Primitive.all.foldl (fun f p => f.define p.name (.prim p)) ({} : Frame)
  s.addFrame (primitives.define "*args*" list)

/-- An evaluator with a global frame. -/
structure Interpreter where
  machine : Machine
  globals : FrameId
  limit : Nat

namespace Interpreter

def start (args : List String) (limit : Nat) : Interpreter :=
  let (globals, store) := ({} : Store).addGlobals args
  ⟨{ store }, globals, limit⟩

/-- Evaluate a datum in a frame. -/
def evaluateIn (frame : FrameId) (d : Datum) : Interpreter → Interpreter × Except Halt Value
  | ⟨⟨store, depth⟩, globals, limit⟩ =>
    let (e, store) := store.place d
    match evaluate limit evaluationFuel frame e ⟨store, depth⟩ with
    | .ok v machine => (⟨machine, globals, limit⟩, .ok v)
    | .error halt machine => (⟨machine, globals, limit⟩, .error halt)

/-- Evaluate a datum in the global frame. -/
def evaluate (i : Interpreter) (d : Datum) : Interpreter × Except Halt Value :=
  i.evaluateIn i.globals d

end Interpreter

end LispSession
