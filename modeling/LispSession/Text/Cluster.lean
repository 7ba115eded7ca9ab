import LispSession.Text.BreakClass
/-!
# Visible units of text

A cluster is what a person takes for one character: a letter with its marks, a Hangul syllable, a flag, a row of linked
consonants, pictographs that are joined into one.  Whether a character belongs to the cluster before it depends on its
own class and on what can be remembered of that cluster, which is a `ClusterContext`.
-/
namespace LispSession

/-- How far a row of linked consonants has come: not begun, a consonant, or a consonant and a linker. -/
inductive Conjunct where
  | none | begun | linked
  deriving DecidableEq, Repr

/-- What is remembered of the text up to here: the class of the last character; whether a pictograph stands here with
nothing but extenders after it, or these and a joiner; whether the last flag letter still lacks its second; and the row
of linked consonants. -/
structure ClusterContext where
  before : BreakClass := .control
  pictograph : Bool := false
  joined : Bool := false
  oddFlag : Bool := false
  conjunct : Conjunct := .none

namespace ClusterContext

/-- The row of linked consonants after one more character. -/
def nextConjunct (k : ClusterContext) (c : Char) : BreakClass → Conjunct
  | .consonant => .begun
  | .extender =>
    if isLinker c then (if k.conjunct = .none then .none else .linked)
    else if c == BreakClass.nonJoinerChar then .none
    else k.conjunct
  | .joiner => k.conjunct
  | _ => .none

/-- What is remembered after one more character. -/
def next (k : ClusterContext) (c : Char) : ClusterContext :=
  let kind := BreakClass.ofChar c
  { before := kind
    pictograph := kind == .pictograph || (k.pictograph && kind == .extender)
    joined := k.pictograph && kind == .joiner
    oddFlag := kind == .flag && !k.oddFlag
    conjunct := k.nextConjunct c kind }

/-- Whether a character of the given class that starts something new of its own kind still goes with what stands before
it. -/
def continuesWith (k : ClusterContext) : BreakClass → Bool
  | .leading | .openSyllable | .closedSyllable => k.before == .leading
  | .vowel => k.before == .leading || k.before == .vowel || k.before == .openSyllable
  | .trailing =>
    k.before == .vowel || k.before == .trailing || k.before == .openSyllable || k.before == .closedSyllable
  | .consonant => k.conjunct == .linked
  | .pictograph => k.joined
  | .flag => k.oddFlag
  | _ => false

/-- Whether a character belongs to the cluster before it. -/
def joins (k : ClusterContext) (c : Char) : Bool :=
  let kind := BreakClass.ofChar c
  if k.before == .carriageReturn && kind == .lineFeed then true
  else if k.before.isControl || kind.isControl then false
  else if kind == .extender || kind == .joiner || kind == .spacing then true
  else k.before == .prepender || k.continuesWith kind

end ClusterContext

/-- Cut a text into clusters; `current` is the cluster under way and `done` those before it, all in reverse. -/
def clustersFrom (k : ClusterContext) (current : List Char) (done : List (List Char)) :
    List Char → List (List Char)
  | [] => ((if current.isEmpty then done else current.reverse :: done)).reverse
  | c :: cs =>
    if k.joins c || current.isEmpty then clustersFrom (k.next c) (c :: current) done cs
    else clustersFrom (k.next c) [c] (current.reverse :: done) cs

/-- The clusters of a text. -/
def clusters (text : List Char) : List (List Char) := clustersFrom {} [] [] text

end LispSession
