/-!
# Blank characters

What separates one word from the next.  The class is Unicode's `White_Space`, which is wider than the four characters
that core's `Char.isWhitespace` knows.
-/
namespace LispSession

/-- A character with the `White_Space` property. -/
def isBlank (c : Char) : Bool :=
  let n := c.toNat
  (9 ≤ n && n ≤ 13) || n == 32 || n == 133 || n == 160 || n == 5760 ||
    (8192 ≤ n && n ≤ 8202) || n == 8232 || n == 8233 || n == 8239 || n == 8287 || n == 12288

/-- A word ends before a blank, a parenthesis, a quote mark, a string or a comment. -/
def isDelimiter (c : Char) : Bool :=
  isBlank c || c == '(' || c == ')' || c == '\'' || c == '"' || c == ';'

end LispSession
