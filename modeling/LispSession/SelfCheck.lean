import LispSession.Datum.Reader
import LispSession.Interpreter
import LispSession.Text.Style
/-!
# Self-checks

Before a session starts the reader, the printer and the evaluator each work through a list of cases, every one a text
and what it must come to.  The first case that fails ends the check.  A verbose check logs every case.
-/
namespace LispSession

/-- A check of one component: what it has logged and how many cases have passed. -/
structure SelfCheck where
  component : String
  verbose : Bool
  colours : Bool
  log : String := ""
  passed : Nat := 0

/-- A case that failed. -/
structure CheckFailure where
  component : String
  input : String
  expected : String
  actual : String
  deriving DecidableEq, Repr

namespace CheckFailure

def message (f : CheckFailure) : String :=
  f.component ++ " self-check failed for " ++ f.input ++ ": expected " ++ f.expected ++ ", got " ++
    f.actual

def help : String := "the interpreter is not operational; run with --log-tests for details"

def code : String := "lisp_rs::self_check"

end CheckFailure

/-- One case: an input, what it must come to, and what it comes to. -/
structure CheckCase where
  input : String
  expected : String
  actual : String

namespace SelfCheck

/-- Add a line to the log of a verbose check. -/
def note (c : SelfCheck) (mark : String) (input actual : String) : SelfCheck :=
  if c.verbose then
    { c with log := c.log ++ mark ++ " " ++ c.component ++ ": " ++ input ++ " => " ++ actual ++ "\n" }
  else c

/-- Look at one case. -/
def check (c : SelfCheck) (case : CheckCase) : SelfCheck × Option CheckFailure :=
  if case.expected = case.actual then
    ({ c with passed := c.passed + 1 }.note (Emphasis.green.apply c.colours "✓") case.input case.actual,
      none)
  else
    (c.note (Emphasis.red.apply c.colours "✗") case.input (Emphasis.red.apply c.colours case.actual),
      some ⟨c.component, case.input, case.expected, case.actual⟩)

/-- Look at cases until one fails. -/
def checkAll (c : SelfCheck) : List CheckCase → SelfCheck × Option CheckFailure
  | [] => (c, none)
  | case :: later =>
    match c.check case with
    | (c, none) => c.checkAll later
    | failed => failed

end SelfCheck

/-! ## The cases -/

/-- Read a text and show what comes of it. -/
def readCase (case : String × String) : CheckCase :=
  let actual := match (Cursor.start (.code case.1)).read.2 with
    | .ok (some d) => d.text
    | .ok none => "<nothing>"
    | .error failure => "<error: " ++ failure.message ++ ">"
  ⟨case.1, case.2, actual⟩

/-- The cases of the reader. -/
def readerCases : List CheckCase :=
  [("42", "42"), ("-1.5", "-1.5"), ("\"a\\\"b\"", "\"a\\\"b\""), ("sym", "sym"), ("#t", "#t"),
    ("()", "nil"), ("(1 (2 3) . 4)", "(1 (2 3) . 4)"), ("'x", "(quote x)"),
    ("; comment\n(a b)", "(a b)")].map readCase

/-- The cases of the printer of values, each with its name in the log. -/
def printerCases : List CheckCase :=
  let num (x : Float) : Datum := .num x
  let case (input : String) (d : Datum) (expected : String) : CheckCase := ⟨input, expected, d.text⟩
  [case "Nil" .nil "nil",
    case "Boolean(true)" (.bool true) "#t",
    case "Number(3.0)" (num 3) "3",
    case "Number(-0.25)" (num (-0.25)) "-0.25",
    case "String(\"say \\\"hi\\\"\\n\")" (.str "say \"hi\"\n") "\"say \\\"hi\\\"\\n\"",
    case "Symbol(\"foo\")" (.sym "foo") "foo",
    case
      ("Pair(Pair \x7b car: Number(1.0), cdr: Pair(Pair \x7b car: Pair(Pair \x7b car: Symbol(\"a\"), " ++
        "cdr: Nil \x7d), cdr: Nil \x7d) \x7d)")
      (.ofList [num 1, .ofList [.sym "a"]]) "(1 (a))",
    case
      ("Pair(Pair \x7b car: Number(1.0), cdr: Pair(Pair \x7b car: Number(2.0), cdr: Number(3.0) " ++
        "\x7d) \x7d)")
      (.pair (num 1) (.pair (num 2) (num 3))) "(1 2 . 3)"]

/-- Evaluate a text with an interpreter and show what comes of it. -/
def evalCase (args : List String) (limit : Nat) (case : String × String) : CheckCase :=
  let actual := match (Cursor.start (.code case.1)).read.2 with
    | .ok (some d) =>
      match ((Interpreter.start args limit).evaluate d).2 with
      | .ok v => v.text
      | .error (.raised r) => "error: " ++ r.error.message
      | .error _ => "nothing"
    | .ok none => "nothing"
    | .error failure => "read error: " ++ failure.message
  ⟨case.1, case.2, actual⟩

/-- The cases of the interpreter. -/
def evaluatorCases (args : List String) (limit : Nat) : List CheckCase :=
  [("(+ 1 2)", "3"), ("'(a . b)", "(a . b)"), ("((lambda (x) (* x x)) 4)", "16"),
    ("(let ((x 1) (y 2)) (cons x y))", "(1 . 2)"), ("(if (< 1 2) 'yes 'no)", "yes"),
    ("(and 1 #f 3)", "#f"),
    ("(begin (define (count n) (if (= n 0) 'done (count (- n 1)))) (count 10000))", "done"),
    ("(car 5)", "error: car expected a pair but found a number"),
    ("undefined-variable", "error: Undefined variable undefined-variable")].map (evalCase args limit)

/-- The only case of the printer that jams. -/
def jammingCases : List CheckCase := [⟨"jam", "jam", "?"⟩]

/-- The only case of the scripted evaluator. -/
def scriptedCases : List CheckCase := [⟨"scripted", "evaluator", "evaluator"⟩]

/-- Check all components in turn, stopping at the first failure; also the log of them all. -/
def selfCheck (verbose colours : Bool) (log : String) :
    List (String × List CheckCase) → String × Option CheckFailure
  | [] => (log, none)
  | (component, cases) :: later =>
    match SelfCheck.checkAll { component, verbose, colours } cases with
    | (c, none) => selfCheck verbose colours (log ++ c.log) later
    | (c, some failure) => (log ++ c.log, some failure)

/-- The components of a session and their cases. -/
def components (printer evaluator : List CheckCase) : List (String × List CheckCase) :=
  [("reader", readerCases), ("printer", printer), ("evaluator", evaluator)]

end LispSession
