/-!
# Emphasis on a terminal

A text is emphasised by an escape sequence before it and a reset after it.  A reset inside the text would end the
emphasis early, so the sequence is repeated after every one of them.
-/
namespace LispSession

/-- The emphasis used in logs. -/
inductive Emphasis where
  | dimmed
  | red
  | green

namespace Emphasis

/-- The sequence that starts an emphasis. -/
def sequence : Emphasis → String
  | .dimmed => "\x1b[2m"
  | .red => "\x1b[31m"
  | .green => "\x1b[32m"

/-- The sequence that ends every emphasis. -/
def reset : String := "\x1b[0m"

/-- A text with the given emphasis, or plain where there are no colours. -/
def apply (e : Emphasis) (colours : Bool) (text : String) : String :=
  if colours then
    e.sequence ++ (reset ++ e.sequence).intercalate (text.splitOn reset) ++ reset
  else text

end Emphasis

end LispSession
