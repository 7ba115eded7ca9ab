import LispSession.Text.Cluster
import LispSession.Text.Utf8
/-!
# Typed lines

A backspace in a typed line takes back the cluster before it.  What it takes back is counted in bytes, and the count is
held in one byte: of a cluster that takes 256 bytes or more only the remainder goes.  If that would cut a character in
two, the line cannot be used at all.
-/
namespace LispSession

/-- The key that takes back what was typed last. -/
def backspace : Char := '\x08'

/-- A line as far as it was typed, last character first, and for each cluster that can be taken back, last one first,
how many bytes go with it. -/
structure TypedLine where
  text : List Char := []
  sizes : List Nat := []

namespace TypedLine

/-- Take so many bytes off the end of a text, which is given in reverse; nothing if that cuts a character in two. -/
def dropBytes? : Nat → List Char → Option (List Char)
  | 0, text => some text
  | _ + 1, [] => none
  | n + 1, c :: cs => if c.utf8Size ≤ n + 1 then dropBytes? (n + 1 - c.utf8Size) cs else none

/-- Take back the last cluster, if there is one. -/
def takeBack (t : TypedLine) : Option TypedLine :=
  match t.sizes with
  | [] => some t
  | size :: sizes => (dropBytes? size t.text).map fun text => ⟨text, sizes⟩

/-- Type one more cluster, or take one back. -/
def type (t : TypedLine) (cluster : List Char) : Option TypedLine :=
  if cluster == [backspace] then t.takeBack
  else some ⟨cluster.reverse ++ t.text, utf8Length cluster % 256 :: t.sizes⟩

/-- Type clusters in turn. -/
def typeAll (t : TypedLine) : List (List Char) → Option TypedLine
  | [] => some t
  | cluster :: later => (t.type cluster).bind fun t => t.typeAll later

end TypedLine

/-- What a line comes to when its backspaces have done their work; nothing if one of them cuts a character in two. -/
def typedLine? (line : List Char) : Option (List Char) :=
  if line.contains backspace then (TypedLine.typeAll {} (clusters line)).map (·.text.reverse)
  else some line

end LispSession
