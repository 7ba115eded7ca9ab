import LispSession.Value
import LispSession.Decimal.Positional
/-!
# The text of values

Values are written in the notation data are read in.  Lists are written element by element, a dotted tail after a
point; strings with their five escapes; procedures, which have no notation, between `#<` and `>`.  The text is
built from left to right along a chain of pairs, so the length of a list costs no depth; `write_eq` says that what is
written does not depend on what was written before.
-/
namespace LispSession

/-- A character inside a string, as it is written. -/
def escapedChar : Char → List Char
  | '"' => ['\\', '"']
  | '\\' => ['\\', '\\']
  | '\n' => ['\\', 'n']
  | '\t' => ['\\', 't']
  | '\r' => ['\\', 'r']
  | c => [c]

/-- A string between its quotation marks. -/
def stringText (text : String) : String :=
  String.ofList ('"' :: text.toList.flatMap escapedChar ++ ['"'])

namespace Value

/-- The text of anything but a pair. -/
def atomText : Value → String
  | .nil => "nil"
  | .bool true => "#t"
  | .bool false => "#f"
  | .num x => numberText x
  | .str _ text => stringText text
  | .sym name => name
  | .pair _ _ _ => ""
  | .prim p => "#<primitive " ++ p.name ++ ">"
  | .closure _ (some name) _ _ _ => "#<lambda " ++ name ++ ">"
  | .closure _ none _ _ _ => "#<lambda>"

mutual

/-- The text so far, followed by the text of a value. -/
def write (out : String) : Value → String
  | .pair _ car cdr => writeRest (write (out.push '(') car) cdr
  | v => out ++ v.atomText

/-- The text so far, followed by what is left of a list. -/
def writeRest (out : String) : Value → String
  | .nil => out.push ')'
  | .pair _ car cdr => writeRest (write (out.push ' ') car) cdr
  | tail => (out ++ " . " ++ tail.atomText).push ')'

end

theorem write_and_writeRest_eq (v : Value) : ∀ out : String,
    write out v = out ++ write "" v ∧ writeRest out v = out ++ writeRest "" v := by
  have push (a b : String) (c : Char) : (a ++ b).push c = a ++ b.push c := by
    simp [← String.append_singleton, String.append_assoc]
  have empty (a : String) (c : Char) : a.push c = a ++ "".push c := by
    simp [← String.append_singleton]
  induction v with
  | pair label car cdr ihCar ihCdr =>
    intro out
    constructor
    · rw [write, write, (ihCar (out.push '(')).1, (ihCar ("".push '(')).1, (ihCdr _).2,
        (ihCdr ("".push '(' ++ write "" car)).2, empty out]
      simp only [String.append_assoc]
    · rw [writeRest, writeRest, (ihCar (out.push ' ')).1, (ihCar ("".push ' ')).1, (ihCdr _).2,
        (ihCdr ("".push ' ' ++ write "" car)).2, empty out]
      simp only [String.append_assoc]
  | nil => intro out; exact ⟨by simp [write], by rw [writeRest, writeRest, empty]⟩
  | _ =>
    intro out
    constructor
    · simp [write]
    · simp only [writeRest, ← push, String.append_assoc, String.empty_append]

/-- What is written does not depend on what was written before. -/
theorem write_eq (out : String) (v : Value) : write out v = out ++ write "" v :=
  (write_and_writeRest_eq v out).1

/-- The text of a value. -/
def text (v : Value) : String := write "" v

end Value

/-- The text of a datum. -/
def Datum.text (d : Datum) : String := d.toValue.text

end LispSession
