import LispSession.Value
/-!
# Why evaluation fails

The causes, their wording, and the expression that is to blame.
-/
namespace LispSession

/-- The forms that are not procedure calls. -/
inductive SpecialForm where
  | quote | cond | define | assign | lambda | sequence | binding | conjunction | disjunction
  deriving DecidableEq, Repr

namespace SpecialForm

def all : List SpecialForm :=
  [.quote, .cond, .define, .assign, .lambda, .sequence, .binding, .conjunction, .disjunction]

/-- The symbol at the head of a form. -/
def name : SpecialForm → String
  | .quote => "quote"
  | .cond => "if"
  | .define => "define"
  | .assign => "set!"
  | .lambda => "lambda"
  | .sequence => "begin"
  | .binding => "let"
  | .conjunction => "and"
  | .disjunction => "or"

/-- The form that a symbol heads. -/
def ofName? : String → Option SpecialForm
  | "quote" => some .quote
  | "if" => some .cond
  | "define" => some .define
  | "set!" => some .assign
  | "lambda" => some .lambda
  | "begin" => some .sequence
  | "let" => some .binding
  | "and" => some .conjunction
  | "or" => some .disjunction
  | _ => none

theorem ofName?_name (form : SpecialForm) : ofName? form.name = some form := by
  cases form <;> rfl

end SpecialForm

/-- The ways in which a special form can lack the shape it needs. -/
inductive Malformation where
  | quoteOperands
  | condOperands
  | defineOperands
  | defineName
  | assignOperands
  | lambdaOperands
  | lambdaBody
  | lambdaParameters
  | bindingList
  | bindingBody
  deriving DecidableEq, Repr

namespace Malformation

/-- The form whose shape is wrong.  A procedure definition is a `lambda` in this respect. -/
def form : Malformation → SpecialForm
  | .quoteOperands => .quote
  | .condOperands => .cond
  | .defineOperands | .defineName => .define
  | .assignOperands => .assign
  | .lambdaOperands | .lambdaBody | .lambdaParameters => .lambda
  | .bindingList | .bindingBody => .binding

def reason : Malformation → String
  | .quoteOperands => "expected exactly one datum"
  | .condOperands => "expected a test and one or two branches"
  | .defineOperands | .assignOperands => "expected a symbol and a value"
  | .defineName => "procedure name must be a symbol"
  | .lambdaOperands => "missing parameters"
  | .lambdaBody | .bindingBody => "missing body"
  | .lambdaParameters => "parameters must be symbols"
  | .bindingList => "bindings must be (name value) pairs"

end Malformation

/-- Why an evaluation fails. -/
inductive EvalError where
  | undefinedVariable (name : String)
  | undefinedAssignment (name : String)
  | unexpectedArity (procedure : String) (expected : Arity) (actual : Nat)
  | operandType (operator : String) (expected actual : Kind)
  | uncallable (actual : Kind)
  | malformed (what : Malformation)
  | improperList
  | divisionByZero
  | user (message : String)
  | recursionLimit (limit : Nat)
  deriving DecidableEq, Repr

namespace EvalError

def message : EvalError → String
  | .undefinedVariable name => "Undefined variable " ++ name
  | .undefinedAssignment name => "Cannot set! undefined variable " ++ name
  | .unexpectedArity procedure expected actual =>
    procedure ++ " expects " ++ expected.text ++ " but got " ++ toString actual
  | .operandType operator expected actual =>
    operator ++ " expected " ++ expected.phrase ++ " but found " ++ actual.phrase
  | .uncallable actual => "Cannot call " ++ actual.phrase
  | .malformed what => "Malformed " ++ what.form.name ++ ": " ++ what.reason
  | .improperList => "Cannot evaluate an improper list"
  | .divisionByZero => "Division by zero"
  | .user message => message
  | .recursionLimit limit => "Maximum recursion depth of " ++ toString limit ++ " exceeded"

/-- Advice to the programmer. -/
def help? : EvalError → Option String
  | .recursionLimit _ => some "only calls in tail position run without growing the stack"
  | _ => none

end EvalError

/-- An error and the innermost expression it was raised from.  The expression is supplied where the error is raised, by
the rule that has it at hand.  So no error is on its way out without one, and nothing on the way has to add one or may
replace it. -/
structure Raised where
  error : EvalError
  blame : Value

end LispSession
