import LispSession.EvalError
import LispSession.Value.Printer
/-!
# Calling primitives

A primitive first checks how many arguments it got, then computes.  Arithmetic folds from the left and reports the first
argument that is no number; comparisons look at all arguments before they compare neighbours.  New pairs are only
described here, as items and a tail: labels are given out by the store.  An operand that is not there has no meaning
at all; the check on the number of arguments is what keeps a call from asking for one.
-/
namespace LispSession

/-- The answer of a primitive: a value at hand, a chain of new pairs, an error, or no meaning. -/
inductive Answer where
  | value (v : Value)
  | chain (items : List Value) (tail : Value)
  | failure (error : EvalError)
  | stuck

namespace Answer

/-- A number or an error. -/
def ofNumber : Except EvalError Float → Answer
  | .ok x => .value (.num x)
  | .error e => .failure e

/-- A truth value or an error. -/
def ofTruth : Except EvalError Bool → Answer
  | .ok b => .value (.bool b)
  | .error e => .failure e

end Answer

namespace Primitive

/-- An argument that has to be a number. -/
def number (p : Primitive) : Value → Except EvalError Float
  | .num x => .ok x
  | v => .error (.operandType p.name .number v.kind)

/-- Arguments that have to be numbers; the first that is none is the error. -/
def numbers (p : Primitive) (args : List Value) : Except EvalError (List Float) :=
  args.mapM p.number

/-- Divide by one argument after the other. -/
def divideBy (quotient : Float) : List Value → Except EvalError Float
  | [] => .ok quotient
  | v :: vs => do
    let divisor ← number .divide v
    if divisor == 0 then .error .divisionByZero else divideBy (quotient / divisor) vs

/-- Whether a relation holds between all neighbours. -/
def betweenNeighbours (holds : Float → Float → Bool) : List Float → Bool
  | a :: b :: rest => holds a b && betweenNeighbours holds (b :: rest)
  | _ => true

/-- Compare neighbours, all arguments being numbers. -/
def compare (p : Primitive) (holds : Float → Float → Bool) (args : List Value) : Answer :=
  .ofTruth ((p.numbers args).map (betweenNeighbours holds))

/-- The only argument, as a truth value. -/
def test (holds : Value → Bool) : List Value → Answer
  | v :: _ => .value (.bool (holds v))
  | [] => .stuck

/-- One component of the pair that is the only argument. -/
def component (p : Primitive) (pick : Value → Value → Value) : List Value → Answer
  | .pair _ front back :: _ => .value (pick front back)
  | v :: _ => .failure (.operandType p.name .pair v.kind)
  | [] => .stuck

/-- A value in a message: strings without quotation marks. -/
def plainText : Value → String
  | .str _ text => text
  | v => v.text

/-- What a primitive does with its arguments, their number being right. -/
def run (p : Primitive) (args : List Value) : Answer :=
  match p with
  | .add => .ofNumber ((p.numbers args).map (List.foldl (· + ·) 0))
  | .multiply => .ofNumber ((p.numbers args).map (List.foldl (· * ·) 1))
  | .subtract =>
    match args with
    | [] => .stuck
    | [v] => .ofNumber ((p.number v).map (- ·))
    | v :: vs => .ofNumber do
      let first ← p.number v
      let rest ← p.numbers vs
      return rest.foldl (· - ·) first
  | .divide =>
    match args with
    | [] => .stuck
    | [v] => .ofNumber (divideBy 1 [v])
    | v :: vs => .ofNumber do
      let first ← p.number v
      divideBy first vs
  | .equals => p.compare (· == ·) args
  | .less => p.compare (fun a b => a < b) args
  | .greater => p.compare (fun a b => b < a) args
  | .lessOrEqual => p.compare (fun a b => a ≤ b) args
  | .greaterOrEqual => p.compare (fun a b => b ≤ a) args
  | .cons =>
    match args with
    | front :: back :: _ => .chain [front] back
    | _ => .stuck
  | .car => p.component (fun front _ => front) args
  | .cdr => p.component (fun _ back => back) args
  | .list => .chain args .nil
  | .isNull => test (·.kind == .nil) args
  | .isPair => test (·.kind == .pair) args
  | .isNumber => test (·.kind == .number) args
  | .isSymbol => test (·.kind == .symbol) args
  | .isString => test (·.kind == .string) args
  | .isProcedure => test (·.kind == .procedure) args
  | .not => test (!·.isTruthy) args
  | .same =>
    match args with
    | a :: b :: _ => .value (.bool (a.isSame b))
    | _ => .stuck
  | .equal =>
    match args with
    | a :: b :: _ => .value (.bool (a.isEqual b))
    | _ => .stuck
  | .error => .failure (.user (" ".intercalate (args.map plainText)))

/-- Call a primitive. -/
def call (p : Primitive) (args : List Value) : Answer :=
  if p.arity.accepts args.length then p.run args
  else .failure (.unexpectedArity p.name p.arity args.length)

end Primitive

end LispSession
