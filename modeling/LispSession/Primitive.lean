/-!
# Names and arities of the primitives

The procedures every session starts with.  What they do stands with the values they work on; here is only what
identifies them: a primitive is its name.
-/
namespace LispSession

/-- How many arguments a procedure takes. -/
inductive Arity where
  | exactly (n : Nat)
  | atLeast (n : Nat)
  deriving DecidableEq, Repr

namespace Arity

/-- Whether a call with `count` arguments is allowed. -/
def accepts : Arity → Nat → Bool
  | .exactly n, count => count == n
  | .atLeast n, count => n ≤ count

/-- The words of an arity in a message. -/
def text : Arity → String
  | .exactly n => counted n
  | .atLeast n => "at least " ++ counted n
where
  counted (n : Nat) : String := toString n ++ (if n == 1 then " argument" else " arguments")

end Arity

/-- The procedures every session starts with. -/
inductive Primitive where
  | add | subtract | multiply | divide
  | equals | less | greater | lessOrEqual | greaterOrEqual
  | cons | car | cdr | list
  | isNull | isPair | isNumber | isSymbol | isString | isProcedure
  | not | same | equal | error
  deriving DecidableEq, Repr

namespace Primitive

/-- The primitives, in the order in which they are defined. -/
def all : List Primitive :=
  [.add, .subtract, .multiply, .divide, .equals, .less, .greater, .lessOrEqual, .greaterOrEqual,
    .cons, .car, .cdr, .list, .isNull, .isPair, .isNumber, .isSymbol, .isString, .isProcedure,
    .not, .same, .equal, .error]

theorem mem_all (p : Primitive) : p ∈ all := by cases p <;> decide

/-- The name a primitive is bound to and shown with. -/
def name : Primitive → String
  | .add => "+"
  | .subtract => "-"
  | .multiply => "*"
  | .divide => "/"
  | .equals => "="
  | .less => "<"
  | .greater => ">"
  | .lessOrEqual => "<="
  | .greaterOrEqual => ">="
  | .cons => "cons"
  | .car => "car"
  | .cdr => "cdr"
  | .list => "list"
  | .isNull => "null?"
  | .isPair => "pair?"
  | .isNumber => "number?"
  | .isSymbol => "symbol?"
  | .isString => "string?"
  | .isProcedure => "procedure?"
  | .not => "not"
  | .same => "eq?"
  | .equal => "equal?"
  | .error => "error"

/-- How many arguments a primitive takes. -/
def arity : Primitive → Arity
  | .add | .multiply | .list => .atLeast 0
  | .subtract | .divide | .equals | .less | .greater | .lessOrEqual | .greaterOrEqual | .error =>
    .atLeast 1
  | .cons | .same | .equal => .exactly 2
  | .car | .cdr | .isNull | .isPair | .isNumber | .isSymbol | .isString | .isProcedure | .not =>
    .exactly 1

/-- The primitive of a given name. -/
def ofName? (name : String) : Option Primitive := all.find? (·.name == name)

end Primitive

end LispSession
