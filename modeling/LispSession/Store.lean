import LispSession.Value
/-!
# Frames

Names are bound in frames.  A frame may have a parent, in which names are looked up that the frame itself does not bind.
A store holds all frames by number and gives out labels for new objects.  Frames are only ever added, and the parent of
a frame is there before it, so parents have smaller numbers: lookup follows a link only downwards, which is why it
ends.
-/
namespace LispSession

/-- The names bound in one place, each once. -/
structure Frame where
  bindings : List (String × Value) := []
  parent : Option FrameId := none

namespace Frame

def get? (f : Frame) (name : String) : Option Value := f.bindings.lookup name

/-- Bind a name, in place of what it was bound to. -/
def define (f : Frame) (name : String) (v : Value) : Frame :=
  if f.bindings.any (·.1 == name) then
    { f with bindings := f.bindings.map fun b => if b.1 == name then (b.1, v) else b }
  else { f with bindings := (name, v) :: f.bindings }

/-- A frame as logs show it. -/
def tag (f : Frame) : String :=
  "<environment: " ++ toString f.bindings.length ++ " bindings" ++
    (if f.parent.isSome then ", nested>" else ">")

end Frame

/-- All frames, and the next label. -/
structure Store where
  frames : Array Frame := #[]
  nextLabel : Label := 0

namespace Store

/-- Add a frame. -/
def addFrame (s : Store) (f : Frame) : FrameId × Store :=
  (s.frames.size, { s with frames := s.frames.push f })

/-- The nearest frame, from `id` upwards, that binds a name, and the value there. -/
def resolve (s : Store) (name : String) (id : FrameId) : Option (FrameId × Value) :=
  match s.frames[id]? with
  | none => none
  | some f =>
    match f.get? name with
    | some v => some (id, v)
    | none =>
      match f.parent with
      | none => none
      | some parent => if parent < id then s.resolve name parent else none
termination_by id

/-- What a name means, seen from a frame. -/
def lookup (s : Store) (id : FrameId) (name : String) : Option Value :=
  (s.resolve name id).map Prod.snd

/-- Bind a name in the given frame. -/
def define (s : Store) (id : FrameId) (name : String) (v : Value) : Store :=
  { s with frames := s.frames.modify id (·.define name v) }

/-- Change the nearest binding of a name; nothing if there is none. -/
def assign (s : Store) (id : FrameId) (name : String) (v : Value) : Option Store :=
  (s.resolve name id).map fun (owner, _) => s.define owner name v

/-- A label for a new object. -/
def freshLabel (s : Store) : Label × Store :=
  (s.nextLabel, { s with nextLabel := s.nextLabel + 1 })

/-- New pairs of the items, in front of a tail. -/
def chain (s : Store) (items : List Value) (tail : Value) : Value × Store :=
  items.reverse.foldl
    (fun (rest, s) item =>
      let (label, s) := s.freshLabel
      (.pair label item rest, s))
    (tail, s)

/-- A datum with labels of its own. -/
def place (s : Store) (d : Datum) : Value × Store :=
  let (v, next) := d.label s.nextLabel
  (v, { s with nextLabel := next })

end Store

end LispSession
