import LispSession.Source
import LispSession.Span
import LispSession.Transcript
/-!
# Cursors

A cursor is a place in a source: the rest of the current line, and what the source has still to deliver.  While a
datum is open every character that is consumed is recorded, so that a diagnostic can point into the datum's text.

`advance` is the only way to consume and `nextLine` the only way to get more.  `pending` bounds what is left to
read: it shrinks with every consumed character and every fetched line, which is why reading ends.
-/
namespace LispSession

/-- The characters consumed since a datum was opened, last first, and how many bytes they take. -/
structure Recording where
  firstLine : Nat
  consumed : List Char := []
  offset : Nat := 0
  offset_eq : offset = utf8Length consumed := by simp

namespace Recording

/-- Record more characters. -/
def append (r : Recording) (taken : List Char) : Recording where
  firstLine := r.firstLine
  consumed := taken.reverseAux r.consumed
  offset := r.offset + utf8Length taken
  offset_eq := by simp [List.reverseAux_eq, r.offset_eq, Nat.add_comm]

/-- The recorded text. -/
def text (r : Recording) : String := String.ofList r.consumed.reverse

end Recording

/-- A piece of source text by name, for a diagnostic to point into. -/
structure Excerpt where
  name : String
  text : String
  deriving DecidableEq, Repr

/-- A console asks for a line with a prompt, which its echo channel may take only in part. -/
structure Prompting where
  prompt : String
  taken : Nat

/-- The visible side of a console: where prompts go, and those shown so far, last first. -/
structure Console where
  echo : Option Channel
  promptings : List Prompting := []

/-- A place in a source. -/
structure Cursor where
  name : String
  deliveries : List Delivery
  lasting : Option InputFailure
  console : Option Console
  prompt : Option String := none
  rest : List Char := []
  lineNumber : Nat := 0
  atEnd : Bool := false
  recording : Option Recording := none

/-- The prompt of a console while a datum is open. -/
def continuationPrompt : String := ".. "

namespace Cursor

/-- The beginning of a source. -/
def start (s : Source) : Cursor :=
  let feed := s.feed
  { name := s.name
    deliveries := feed.deliveries
    lasting := feed.lasting
    console := match s with | .console _ echo => some { echo } | _ => none }

def isConsole (c : Cursor) : Bool := c.console.isSome

/-- Whether part of the current line is still unread. -/
def hasBuffered (c : Cursor) : Bool := !c.rest.isEmpty

/-- Whether the source has ended and nothing of it is left. -/
def isExhausted (c : Cursor) : Bool := c.atEnd && !c.hasBuffered

/-- Source and line number, as traces show them. -/
def tag (c : Cursor) : String := "<" ++ c.name ++ ":" ++ toString c.lineNumber ++ ">"

def withPrompt (c : Cursor) (prompt : String) : Cursor := { c with prompt := some prompt }

/-- The echo of all prompts so far, first one first. -/
def echoed (c : Cursor) : List Writing :=
  match c.console with
  | none => []
  | some console => console.promptings.reverse.map fun p => ⟨.out, p.prompt, p.taken⟩

/-- Forget the echo so far. -/
def dropEcho (c : Cursor) : Cursor :=
  { c with console := c.console.map fun console => { console with promptings := [] } }

/-! ## Data under way -/

def openDatum (c : Cursor) : Cursor := { c with recording := some { firstLine := c.lineNumber } }

def closeDatum (c : Cursor) : Cursor := { c with recording := none }

/-- Where the next character will stand in the open datum. -/
def offset (c : Cursor) : Nat :=
  match c.recording with
  | some r => r.offset
  | none => 0

/-- The text of the open datum, named after the source and the line it began on. -/
def excerpt (c : Cursor) : Excerpt :=
  match c.recording with
  | some r => ⟨c.name ++ ":" ++ toString r.firstLine, r.text⟩
  | none => ⟨c.name, ""⟩

/-- Consume `n` characters of the current line, or what there is of them. -/
def advance (c : Cursor) (n : Nat) : Cursor :=
  { c with
    rest := c.rest.drop n
    recording := c.recording.map (·.append (c.rest.take n)) }

/-! ## Lines -/

/-- Show the prompt of a console: the continuation prompt while a datum is open.  A source without a console
shows nothing. -/
def showPrompt (c : Cursor) : Cursor × Option InputFailure :=
  match c.console with
  | some { echo := some echo, promptings } =>
    let prompt := if c.recording.isSome then continuationPrompt else c.prompt.getD ""
    let (echo, taken, cut) := echo.write prompt
    let promptings := ⟨prompt, taken⟩ :: promptings
    match cut with
    | some why =>
      ({ c with console := some ⟨some echo, promptings⟩ }, some (.unreadable Source.consoleName why))
    | none =>
      let (echo, stuck) := echo.flush
      ({ c with console := some ⟨some echo, promptings⟩ },
        stuck.map (.unreadable Source.consoleName))
  | _ => (c, none)

/-- Take the next delivery, the prompt being shown. -/
def takeDelivery (c : Cursor) : Cursor × Except InputFailure Bool :=
  match c.deliveries with
  | .line text :: later =>
    ({ c with deliveries := later, rest := text, lineNumber := c.lineNumber + 1 }, .ok true)
  | .failure why :: later => ({ c with deliveries := later }, .error why)
  | [] =>
    match c.lasting with
    | some why => (c, .error why)
    | none => ({ c with rest := [], atEnd := true }, .ok false)

/-- Replace the current line by the next one: `false` at the end of the source, which is noticed once and for all.  A
prompt that cannot be shown leaves the delivery where it is. -/
def nextLine (c : Cursor) : Cursor × Except InputFailure Bool :=
  if c.atEnd then (c, .ok false)
  else
    match c.showPrompt with
    | (c, some why) => (c, .error why)
    | (c, none) => c.takeDelivery

/-- The next character, fetching a line if none is buffered. -/
def peek (c : Cursor) : Cursor × Except InputFailure (Option Char) :=
  match c.rest with
  | ch :: _ => (c, .ok (some ch))
  | [] =>
    match c.nextLine with
    | (c, .ok _) => (c, .ok c.rest.head?)
    | (c, .error why) => (c, .error why)

/-- Consume the next character, fetching a line if none is buffered. -/
def next (c : Cursor) : Cursor × Except InputFailure (Option Char) :=
  match c.peek with
  | (c, .ok (some ch)) => (c.advance 1, .ok (some ch))
  | other => other

/-! ## What is left to read -/

/-- A bound on what is left to read. -/
def pending (c : Cursor) : Nat := c.rest.length + c.deliveries.foldr (fun d later => d.size + later) 0

@[simp] theorem pending_advance (c : Cursor) (n : Nat) :
    (c.advance n).pending = c.pending - min n c.rest.length := by
  simp [pending, advance]; omega

/-- Showing a prompt consumes nothing. -/
theorem pending_showPrompt (c : Cursor) : c.showPrompt.1.pending = c.pending := by
  unfold showPrompt
  split
  · dsimp only; split <;> rfl
  · rfl

theorem pending_takeDelivery_lt {c c' : Cursor} (h : c.takeDelivery = (c', .ok true)) :
    c'.pending < c.pending := by
  unfold takeDelivery at h
  split at h
  · next text later hd =>
    obtain ⟨rfl, -⟩ := Prod.mk.inj h
    simp [pending, hd, Delivery.size]; omega
  · cases h
  · split at h <;> cases h

theorem pending_takeDelivery_le (c : Cursor) : c.takeDelivery.1.pending ≤ c.pending := by
  unfold takeDelivery
  split
  · next text later hd => simp [pending, hd, Delivery.size]; omega
  · next why later hd => simp [pending, hd, Delivery.size]
  · split
    · exact Nat.le_refl _
    · simp [pending]

/-- A fetched line leaves less to read. -/
theorem pending_nextLine_lt {c c' : Cursor} (h : c.nextLine = (c', .ok true)) :
    c'.pending < c.pending := by
  unfold nextLine at h
  split at h
  · cases h
  · have hp := pending_showPrompt c
    split at h
    · cases h
    · next shown hs =>
      rw [← hp, hs]
      exact pending_takeDelivery_lt h

/-- Asking for a line never leaves more to read. -/
theorem pending_nextLine_le (c : Cursor) : c.nextLine.1.pending ≤ c.pending := by
  unfold nextLine
  split
  · exact Nat.le_refl _
  · have hp := pending_showPrompt c
    split
    · next shown why hs =>
      rw [hs] at hp
      exact Nat.le_of_eq hp
    · next shown hs =>
      rw [hs] at hp
      exact hp ▸ pending_takeDelivery_le shown

end Cursor

end LispSession
