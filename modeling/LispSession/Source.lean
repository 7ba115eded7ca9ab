import LispSession.Channel
/-!
# Sources

A source hands out its text line by line.  Whatever it is made of, a file, a text given in full, or a person at a
console, it comes down to a list of deliveries: lines, each with the line end it came with, and failures in between.
What happens after the last delivery is either the end of the source or one more failure that never goes away.
-/
namespace LispSession

/-- Why a source could not hand out a line.  A console that collapses does not even report a failure. -/
inductive InputFailure where
  | interrupted
  | unreadable (name : String) (why : String)
  | console (why : String)
  | collapsed (text : String)
  deriving DecidableEq, Repr

namespace InputFailure

def message : InputFailure → String
  | .interrupted => "Interrupted"
  | .unreadable name why => "Error reading " ++ name ++ ": " ++ why
  | .console why => "Console error: " ++ why
  | .collapsed text => text

end InputFailure

/-- What a request for a line brings. -/
inductive Delivery where
  | line (text : List Char)
  | failure (why : InputFailure)

/-- How much reading a delivery can feed: its characters, and one for the request itself. -/
def Delivery.size : Delivery → Nat
  | .line text => text.length + 1
  | .failure _ => 1

/-- The deliveries of a source; after them it ends, or fails for good. -/
structure Feed where
  deliveries : List Delivery
  lasting : Option InputFailure := none

/-! ## Lines -/

/-- Cut behind every `stop`: the finished lines, and what is left without a line end. -/
def linesAfter {α : Type} [BEq α] (stop : α) (done : List (List α)) (line : List α) :
    List α → List (List α) × List α
  | [] => (done.reverse, line.reverse)
  | a :: as =>
    if a == stop then linesAfter stop ((a :: line).reverse :: done) [] as
    else linesAfter stop done (a :: line) as

/-- The lines of a text, each with its line end, and the part without one. -/
def splitLines {α : Type} [BEq α] (stop : α) (text : List α) : List (List α) × List α :=
  linesAfter stop [] [] text

theorem linesAfter_flatten {α : Type} [BEq α] [LawfulBEq α] (stop : α) (text : List α) :
    ∀ (done : List (List α)) (line : List α),
      (linesAfter stop done line text).1.flatten ++ (linesAfter stop done line text).2 =
        done.reverse.flatten ++ line.reverse ++ text := by
  induction text with
  | nil => simp [linesAfter]
  | cons a as ih =>
    intro done line
    rw [linesAfter]
    split <;> rw [ih] <;> simp

/-- Cutting a text into lines loses nothing. -/
theorem splitLines_flatten {α : Type} [BEq α] [LawfulBEq α] (stop : α) (text : List α) :
    (splitLines stop text).1.flatten ++ (splitLines stop text).2 = text := by
  simpa [splitLines] using linesAfter_flatten stop text [] []

/-- Why bytes are no text. -/
def invalidUtf8 : String := "stream did not contain valid UTF-8"

namespace Feed

/-- A text in full. -/
def ofText (text : List Char) : Feed :=
  let (lines, rest) := splitLines '\n' text
  ⟨lines.map .line ++ (if rest.isEmpty then [] else [.line rest]), none⟩

/-- A line of bytes, which may not be text. -/
def deliverBytes (name : String) (line : List UInt8) : Delivery :=
  match decodeUtf8? line with
  | some text => .line text
  | none => .failure (.unreadable name invalidUtf8)

/-- A stream of bytes that ends after them, or fails there; a failing stream loses the line under way. -/
def ofBytes (name : String) (bytes : List UInt8) (failing : Option String) : Feed :=
  let (lines, rest) := splitLines 10 bytes
  let whole := lines.map (deliverBytes name)
  match failing with
  | some why => ⟨whole, some (.unreadable name why)⟩
  | none => ⟨whole ++ (if rest.isEmpty then [] else [deliverBytes name rest]), none⟩

end Feed

/-! ## Consoles -/

/-- What comes from a console that is asked for a line. -/
inductive ConsoleEvent where
  | line (text : String)
  | interrupt
  | failure (why : String)
  | collapse (text : String)

/-- An entered line is read with a line end of its own. -/
def ConsoleEvent.delivery : ConsoleEvent → Delivery
  | .line text => .line (text.toList ++ ['\n'])
  | .interrupt => .failure .interrupted
  | .failure why => .failure (.console why)
  | .collapse text => .failure (.collapsed text)

/-- Where input comes from.  A console with an echo channel shows its prompts there. -/
inductive Source where
  | file (name : String) (bytes : List UInt8) (failing : Option String)
  | code (text : String)
  | console (events : List ConsoleEvent) (echo : Option Channel)

namespace Source

def codeName : String := "<code>"

def consoleName : String := "<console>"

def name : Source → String
  | .file name _ _ => name
  | .code _ => codeName
  | .console _ _ => consoleName

def feed : Source → Feed
  | .file name bytes failing => .ofBytes name bytes failing
  | .code text => .ofText text.toList
  | .console events _ => ⟨events.map ConsoleEvent.delivery, none⟩

end Source

end LispSession
