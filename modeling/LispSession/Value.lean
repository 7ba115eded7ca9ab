import LispSession.Datum
import LispSession.Primitive
/-!
# Values

A value is what evaluation hands around: data and procedures.  Pairs, strings and closures are objects: each carries
the label it was created with, and two of them are the same object exactly when their labels agree.  A closure
refers to the frame it was made in by number; frames live in a store, so values stay finite trees.
-/
namespace LispSession

/-- What tells one object from another. -/
abbrev Label := Nat

/-- The number of a frame in a store. -/
abbrev FrameId := Nat

/-- The names a closure binds: one for each argument in turn, and one for the list of all further ones. -/
structure Parameters where
  required : List String
  rest : Option String
  deriving DecidableEq, Repr

/-- What evaluation hands around.  The body of a closure is the list of its expressions. -/
inductive Value where
  | nil
  | bool (b : Bool)
  | num (x : Float)
  | str (label : Label) (text : String)
  | sym (name : String)
  | pair (label : Label) (car cdr : Value)
  | prim (p : Primitive)
  | closure (label : Label) (name : Option String) (params : Parameters) (body : Value)
      (frame : FrameId)

instance : Inhabited Value := ⟨.nil⟩

/-- The kinds of value that messages speak of. -/
inductive Kind where
  | nil | boolean | number | string | symbol | pair | procedure
  deriving DecidableEq, Repr

namespace Kind

/-- The bare word for a kind. -/
def word : Kind → String
  | .nil => "nil"
  | .boolean => "boolean"
  | .number => "number"
  | .string => "string"
  | .symbol => "symbol"
  | .pair => "pair"
  | .procedure => "procedure"

/-- A kind in a sentence. -/
def phrase : Kind → String
  | .nil => "nil"
  | k => "a " ++ k.word

end Kind

namespace Value

def kind : Value → Kind
  | .nil => .nil
  | .bool _ => .boolean
  | .num _ => .number
  | .str _ _ => .string
  | .sym _ => .symbol
  | .pair _ _ _ => .pair
  | .prim _ | .closure _ _ _ _ _ => .procedure

/-- Everything counts as true but `#f` and `nil`. -/
def isTruthy : Value → Bool
  | .nil | .bool false => false
  | _ => true

/-- The name of a symbol. -/
def symbol? : Value → Option String
  | .sym name => some name
  | _ => none

/-! ## Lists -/

/-- The elements along a chain of pairs, in front of which `reversed` have been seen already. -/
def toListAfter (reversed : List Value) : Value → Option (List Value)
  | .nil => some reversed.reverse
  | .pair _ car cdr => toListAfter (car :: reversed) cdr
  | _ => none

/-- The elements of a proper list; a dotted list and an atom other than `nil` have none. -/
def toList? (v : Value) : Option (List Value) := toListAfter [] v

/-- The elements along the chain of pairs, whatever it ends in. -/
def elements : Value → List Value
  | .pair _ car cdr => car :: elements cdr
  | _ => []

theorem toListAfter_eq (reversed : List Value) (v : Value) :
    toListAfter reversed v = (toListAfter [] v).map (reversed.reverse ++ ·) := by
  induction v generalizing reversed with
  | pair label car cdr _ ih =>
    rw [toListAfter, ih, toListAfter, ih [car]]
    simp [Option.map_map, Function.comp_def]
  | _ => simp [toListAfter]

@[simp] theorem toList?_nil : toList? .nil = some [] := rfl

@[simp] theorem toList?_pair (label : Label) (car cdr : Value) :
    toList? (.pair label car cdr) = (toList? cdr).map (car :: ·) := by
  rw [toList?, toListAfter, toListAfter_eq]; rfl

/-! ## Equality

`isSame` compares objects by identity and everything else by content.  `isEqual` compares content, except that closures
are equal only to themselves; on its way along two lists it stops at a pair that both share. -/

/-- Whether two values have equal content. -/
def isEqual : Value → Value → Bool
  | .nil, .nil => true
  | .bool a, .bool b => a == b
  | .num a, .num b => a == b
  | .str _ a, .str _ b => a == b
  | .sym a, .sym b => a == b
  | .pair l car cdr, .pair l' car' cdr' =>
    if l == l' then true
    else if isEqual car car' then isEqual cdr cdr'
    else false
  | .prim p, .prim p' => p == p'
  | .closure l _ _ _ _, .closure l' _ _ _ _ => l == l'
  | _, _ => false

/-- Whether two values are the same object, or equal atoms. -/
def isSame : Value → Value → Bool
  | .pair l _ _, .pair l' _ _ => l == l'
  | .closure l _ _ _ _, .closure l' _ _ _ _ => l == l'
  | .str l _, .str l' _ => l == l'
  | a, b => isEqual a b

end Value

/-! ## Data as values

A datum becomes a value by labelling its strings and pairs, so that evaluation can tell one object from another. -/

/-- Label a datum from `next` on.  The pairs of a chain are labelled front to back, each before its
element; `done` holds those in front, last first.  Also the first label left over. -/
def Datum.labelAfter (done : List (Label × Value)) (next : Label) : Datum → Value × Label
  | .pair car cdr =>
    let (v, later) := labelAfter [] (next + 1) car
    labelAfter ((next, v) :: done) later cdr
  | .nil => (close .nil, next)
  | .bool b => (close (.bool b), next)
  | .num x => (close (.num x), next)
  | .str text => (close (.str next text), next + 1)
  | .sym name => (close (.sym name), next)
where
  /-- Put the labelled elements in front of a tail. -/
  close (tail : Value) : Value :=
    done.foldl (fun rest (label, car) => .pair label car rest) tail

/-- A datum with labels from `next` on, and the first label left over. -/
def Datum.label (d : Datum) (next : Label) : Value × Label := d.labelAfter [] next

/-- A datum as a value, for uses that do not look at labels. -/
def Datum.toValue (d : Datum) : Value := (d.label 0).1

end LispSession
