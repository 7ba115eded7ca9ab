import LispSession.Store
import LispSession.EvalError
/-!
# Closures

A closure is made from a list of parameters and a body, and called by binding the parameters in a new frame under the
one it was made in.  Both can fail: the first on a wrong shape, the second on a wrong number of arguments.
-/
namespace LispSession

namespace Parameters

/-- The parameters that a value lists, `reversed` being seen already: symbols along a chain of pairs that ends in `nil`
or in the name for all further arguments. -/
def ofValueAfter (reversed : List String) : Value → Option Parameters
  | .nil => some ⟨reversed.reverse, none⟩
  | .sym rest => some ⟨reversed.reverse, some rest⟩
  | .pair _ (.sym name) cdr => ofValueAfter (name :: reversed) cdr
  | _ => none

/-- The parameters that a value lists. -/
def ofValue? (v : Value) : Option Parameters := ofValueAfter [] v

/-- The parameters of a closure with the given body, which must not be empty. -/
def check (params body : Value) : Except Malformation Parameters :=
  if body.elements.isEmpty then .error .lambdaBody
  else
    match ofValue? params with
    | some params => .ok params
    | none => .error .lambdaParameters

/-- How many arguments the parameters take. -/
def arity (p : Parameters) : Arity :=
  match p.rest with
  | some _ => .atLeast p.required.length
  | none => .exactly p.required.length

/-- The error of a call with so many arguments, if that is a wrong number of them. -/
def mismatch? (p : Parameters) (name : Option String) (count : Nat) : Option EvalError :=
  if p.arity.accepts count then none
  else some (.unexpectedArity (name.getD "lambda") p.arity count)

/-- Parameters as logs show them. -/
def text (p : Parameters) : String :=
  " ".intercalate p.required ++ (match p.rest with | some rest => " . " ++ rest | none => "")

end Parameters

namespace Store

/-- A new frame under `parent` with the parameters bound to arguments of the right number.  Of two parameters of one
name the later one counts. -/
def bind (s : Store) (params : Parameters) (args : List Value) (parent : FrameId) :
    FrameId × Store :=
  let frame := (params.required.zip args).foldl (fun f (name, v) => f.define name v)
    { parent := some parent }
  match params.rest with
  | none => s.addFrame frame
  | some rest =>
    let (further, s) := s.chain (args.drop params.required.length) .nil
    s.addFrame (frame.define rest further)

end Store

/-- A closure as logs show it. -/
def closureTag (name : Option String) (params : Parameters) : String :=
  "#<lambda " ++ name.getD "" ++ "(" ++ params.text ++ ")>"

end LispSession
