import LispSession.Closure
import LispSession.Primitive.Call
/-!
# Evaluation

One round of evaluation looks at one expression and either has its value or knows the expression, and the frame, to go
on with: that is how tail positions cost nothing.  All other subexpressions are evaluated one level deeper, by a
function that the rules are given; a level beyond the limit is an error of the expression that needed it.

`evalRounds` goes round until there is a value, at most as often as its fuel allows.  Running out of fuel is an outcome
of its own, apart from values, errors and calls without a meaning.
-/
namespace LispSession

/-- What evaluation changes: the store, and the level it is on. -/
structure Machine where
  store : Store := {}
  depth : Nat := 0

/-- How an evaluation ends without a value. -/
inductive Halt where
  | raised (r : Raised)
  | stuck
  | unfinished

/-- A computation on a machine. -/
abbrev Run := EStateM Halt Machine

/-- How to evaluate an expression in a frame. -/
abbrev Eval := FrameId → Value → Run Value

/-- What a round of evaluation comes to: a value, or what to evaluate in its place. -/
inductive Next where
  | value (v : Value)
  | tail (frame : FrameId) (expression : Value)

namespace Run

/-- Fail, an expression being to blame. -/
def raise {α : Type} (error : EvalError) (blame : Value) : Run α := throw (.raised ⟨error, blame⟩)

/-- Use the store. -/
def withStore {α : Type} (f : Store → α × Store) : Run α :=
  modifyGet fun ⟨store, depth⟩ =>
    let (a, store) := f store
    (a, ⟨store, depth⟩)

end Run

open Run

/-! ## The rules -/

/-- Evaluate in turn, and go on with the last. -/
def evalBody (sub : Eval) (frame : FrameId) : List Value → Run Next
  | [] => return .value .nil
  | [last] => return .tail frame last
  | e :: es => do
    let _ ← sub frame e
    evalBody sub frame es

/-- Evaluate until a value is as true as `stop`, and go on with the last. -/
def evalUntil (sub : Eval) (stop : Bool) (frame : FrameId) : List Value → Run Next
  | [] => return .value (.bool !stop)
  | [last] => return .tail frame last
  | e :: es => do
    let v ← sub frame e
    if v.isTruthy == stop then return .value v else evalUntil sub stop frame es

/-- A new closure. -/
def makeClosure (name : Option String) (params body : Value) (frame : FrameId) (blame : Value) :
    Run Value :=
  match Parameters.check params body with
  | .error what => raise (.malformed what) blame
  | .ok params => do
    let label ← withStore (·.freshLabel)
    return .closure label name params body frame

/-- Bind a name in a frame; the name is the value. -/
def defineName (frame : FrameId) (name : String) (v : Value) : Run Next := do
  withStore fun s => ((), s.define frame name v)
  return .value (.sym name)

/-- The frame of a `let`: the values of all names are computed outside of it. -/
def evalBindings (sub : Eval) (frame : FrameId) (blame : Value) (inner : Frame) :
    List Value → Run Frame
  | [] => return inner
  | binding :: later =>
    match binding.toList? with
    | some [.sym name, init] => do
      let v ← sub frame init
      evalBindings sub frame blame (inner.define name v) later
    | _ => raise (.malformed .bindingList) blame

/-- The rule of a special form with the given operands, which `rest` lists. -/
def evalSpecial (sub : Eval) (frame : FrameId) (e : Value) (form : SpecialForm) (rest : Value)
    (operands : List Value) : Run Next :=
  match form with
  | .quote =>
    match operands with
    | [datum] => return .value datum
    | _ => raise (.malformed .quoteOperands) e
  | .cond =>
    match operands with
    | [test, consequent] => do
      if (← sub frame test).isTruthy then return .tail frame consequent else return .tail frame .nil
    | [test, consequent, alternative] => do
      if (← sub frame test).isTruthy then return .tail frame consequent
      else return .tail frame alternative
    | _ => raise (.malformed .condOperands) e
  | .define =>
    match operands, rest with
    | [.sym name, value], _ => do defineName frame name (← sub frame value)
    | .pair _ target params :: _, .pair _ _ body =>
      match target with
      | .sym name => do defineName frame name (← makeClosure (some name) params body frame e)
      | _ => raise (.malformed .defineName) e
    | _, _ => raise (.malformed .defineOperands) e
  | .assign =>
    match operands with
    | [.sym name, value] => do
      let v ← sub frame value
      match (← get).store.resolve name frame with
      | some (owner, _) =>
        withStore fun s => ((), s.define owner name v)
        return .value v
      | none => raise (.undefinedAssignment name) e
    | _ => raise (.malformed .assignOperands) e
  | .lambda =>
    match rest with
    | .pair _ params body => return .value (← makeClosure none params body frame e)
    | _ => raise (.malformed .lambdaOperands) e
  | .sequence => evalBody sub frame operands
  | .binding =>
    match operands with
    | [] => raise (.malformed .bindingList) e
    | bindings :: body =>
      match bindings.toList? with
      | none => raise (.malformed .bindingList) e
      | some bindings => do
        let inner ← evalBindings sub frame e { parent := some frame } bindings
        if body.isEmpty then raise (.malformed .bindingBody) e
        else
          let inner ← withStore (·.addFrame inner)
          evalBody sub inner body
  | .conjunction => evalUntil sub false frame operands
  | .disjunction => evalUntil sub true frame operands

/-- Call a procedure. -/
def applyProcedure (sub : Eval) (e : Value) (procedure : Value) (args : List Value) : Run Next :=
  match procedure with
  | .prim p =>
    match p.call args with
    | .value v => return .value v
    | .chain items tail => return .value (← withStore (·.chain items tail))
    | .failure error => raise error e
    | .stuck => throw .stuck
  | .closure _ name params body frame =>
    match params.mismatch? name args.length with
    | some error => raise error e
    | none => do
      let inner ← withStore (·.bind params args frame)
      evalBody sub inner body.elements
  | v => raise (.uncallable v.kind) e

/-- The form that the head of an expression makes it. -/
def headForm? (head : Value) : Option SpecialForm := head.symbol?.bind SpecialForm.ofName?

/-- One round of evaluation: symbols stand for what they are bound to, pairs are forms or calls, and everything else
stands for itself. -/
def evalRound (sub : Eval) (frame : FrameId) (e : Value) : Run Next :=
  match e with
  | .sym name => do
    match (← get).store.lookup frame name with
    | some v => return .value v
    | none => raise (.undefinedVariable name) e
  | .pair _ head rest =>
    match rest.toList? with
    | none => raise .improperList e
    | some operands =>
      match headForm? head with
      | some form => evalSpecial sub frame e form rest operands
      | none => do
        let procedure ← sub frame head
        let args ← operands.mapM (sub frame)
        applyProcedure sub e procedure args
  | v => return .value v

/-! ## Levels and rounds -/

/-- Evaluate one level deeper, if the limit allows, and come back to the level before. -/
def descend (limit : Nat) (eval : Eval) : Eval := fun frame e m =>
  if limit ≤ m.depth then .error (.raised ⟨.recursionLimit limit, e⟩) m
  else
    match eval frame e { m with depth := m.depth + 1 } with
    | .ok v m => .ok v { m with depth := m.depth - 1 }
    | .error halt m => .error halt { m with depth := m.depth - 1 }

/-- Evaluate on the current level, in at most `fuel` rounds on each level. -/
def evalRounds (limit : Nat) : Nat → Eval
  | 0, _, _, m => .error .unfinished m
  | fuel + 1, frame, e, m =>
    match evalRound (descend limit (evalRounds limit fuel)) frame e m with
    | .ok (.value v) m => .ok v m
    | .ok (.tail frame e) m => evalRounds limit fuel frame e m
    | .error halt m => .error halt m

/-- Evaluate an expression in a frame, on a new level. -/
def evaluate (limit fuel : Nat) : Eval := descend limit (evalRounds limit fuel)

end LispSession
