import LispSession.Evaluation
/-!
# Evaluation as a relation

The meaning of expressions, one rule per form and per way to fail, over a store that is handed from premise to premise.
`Starts` is the evaluation of a whole expression or of a subexpression that is not in tail position: it is where the
limit on nesting is looked at.  Such subexpressions start one level deeper; those in tail position are evaluated by
`Evaluates` on the level of the expression itself.  Nothing here knows of fuel, rounds or a depth that is counted up and
down.

An expression is taken apart by `toList?` only: `e.toList? = some [.sym "quote", v]` says that `e` is the list
`(quote v)`.
-/
namespace LispSession

/-- A symbol at the head of a call never names a form. -/
def Value.NoKeyword (head : Value) : Prop := ∀ form : SpecialForm, head ≠ .sym form.name

/-- A closure is made, or its parameters or its body have the wrong shape. -/
inductive Closes (name : Option String) (params body : Value) (frame : FrameId) (blame : Value) (s : Store) :
    Except Raised Value → Store → Prop where
  | made {ps : Parameters} (hbody : body.elements ≠ []) (hparams : Parameters.ofValue? params = some ps) :
    Closes name params body frame blame s (.ok (.closure s.nextLabel name ps body frame)) s.freshLabel.2
  | noBody (hbody : body.elements = []) :
    Closes name params body frame blame s (.error ⟨.malformed .lambdaBody, blame⟩) s
  | badParameters (hbody : body.elements ≠ []) (hparams : Parameters.ofValue? params = none) :
    Closes name params body frame blame s (.error ⟨.malformed .lambdaParameters, blame⟩) s

mutual

/-- A top-level or non-tail evaluation that starts at nesting `d`. -/
inductive Starts (limit : Nat) : Nat → FrameId → Value → Store → Except Raised Value → Store → Prop where
  | tooDeep {d f e s} (h : limit ≤ d) : Starts limit d f e s (.error ⟨.recursionLimit limit, e⟩) s
  | within {d f e s o s'} (h : d < limit) (he : Evaluates limit d f e s o s') : Starts limit d f e s o s'

/-- The evaluation of an expression in a frame at nesting `d`. -/
inductive Evaluates (limit : Nat) : Nat → FrameId → Value → Store → Except Raised Value → Store → Prop where
  | itself {d f e s} (hsym : e.kind ≠ .symbol) (hpair : e.kind ≠ .pair) : Evaluates limit d f e s (.ok e) s
  | variable {d f name s v} (h : s.lookup f name = some v) : Evaluates limit d f (.sym name) s (.ok v) s
  | unbound {d f name s} (h : s.lookup f name = none) :
    Evaluates limit d f (.sym name) s (.error ⟨.undefinedVariable name, .sym name⟩) s
  | improper {d f e s} (hpair : e.kind = .pair) (h : e.toList? = none) :
    Evaluates limit d f e s (.error ⟨.improperList, e⟩) s
  -- `(quote v)`
  | quote {d f e s v} (h : e.toList? = some [.sym "quote", v]) : Evaluates limit d f e s (.ok v) s
  | quoteMalformed {d f e s operands} (h : e.toList? = some (.sym "quote" :: operands)) (hn : operands.length ≠ 1) :
    Evaluates limit d f e s (.error ⟨.malformed .quoteOperands, e⟩) s
  -- `(if test consequent)` and `(if test consequent alternative)`
  | condTrue {d f e s test consequent alternative v s₁ o s'}
    (h : e.toList? = some (.sym "if" :: test :: consequent :: alternative)) (hn : alternative.length ≤ 1)
    (htest : Starts limit (d + 1) f test s (.ok v) s₁) (hv : v.isTruthy = true)
    (hc : Evaluates limit d f consequent s₁ o s') : Evaluates limit d f e s o s'
  | condFalse {d f e s test consequent alternative v s₁ o s'}
    (h : e.toList? = some [.sym "if", test, consequent, alternative])
    (htest : Starts limit (d + 1) f test s (.ok v) s₁) (hv : v.isTruthy = false)
    (ha : Evaluates limit d f alternative s₁ o s') : Evaluates limit d f e s o s'
  | condNothing {d f e s test consequent v s₁} (h : e.toList? = some [.sym "if", test, consequent])
    (htest : Starts limit (d + 1) f test s (.ok v) s₁) (hv : v.isTruthy = false) : Evaluates limit d f e s (.ok .nil) s₁
  | condRaised {d f e s test consequent alternative r s₁}
    (h : e.toList? = some (.sym "if" :: test :: consequent :: alternative)) (hn : alternative.length ≤ 1)
    (htest : Starts limit (d + 1) f test s (.error r) s₁) : Evaluates limit d f e s (.error r) s₁
  | condMalformed {d f e s operands} (h : e.toList? = some (.sym "if" :: operands))
    (hn : operands.length ≠ 2 ∧ operands.length ≠ 3) : Evaluates limit d f e s (.error ⟨.malformed .condOperands, e⟩) s
  -- `(define name value)` and `(define (name . params) . body)`
  | define {d f e s name value v s₁} (h : e.toList? = some [.sym "define", .sym name, value])
    (hvalue : Starts limit (d + 1) f value s (.ok v) s₁) :
    Evaluates limit d f e s (.ok (.sym name)) (s₁.define f name v)
  | defineRaised {d f e s name value r s₁} (h : e.toList? = some [.sym "define", .sym name, value])
    (hvalue : Starts limit (d + 1) f value s (.error r) s₁) : Evaluates limit d f e s (.error r) s₁
  | defineProcedure {d f l l₁ l₂ name params body exprs s v s₁} (h : body.toList? = some exprs)
    (hc : Closes (some name) params body f (.pair l (.sym "define") (.pair l₁ (.pair l₂ (.sym name) params) body)) s
      (.ok v) s₁) :
    Evaluates limit d f (.pair l (.sym "define") (.pair l₁ (.pair l₂ (.sym name) params) body)) s
      (.ok (.sym name)) (s₁.define f name v)
  | defineProcedureMalformed {d f l l₁ l₂ name params body exprs s r s₁} (h : body.toList? = some exprs)
    (hc : Closes (some name) params body f (.pair l (.sym "define") (.pair l₁ (.pair l₂ (.sym name) params) body)) s
      (.error r) s₁) :
    Evaluates limit d f (.pair l (.sym "define") (.pair l₁ (.pair l₂ (.sym name) params) body)) s (.error r) s₁
  | defineNameless {d f e s l target params body}
    (h : e.toList? = some (.sym "define" :: .pair l target params :: body))
    (ht : target.kind ≠ .symbol) : Evaluates limit d f e s (.error ⟨.malformed .defineName, e⟩) s
  | defineMalformed {d f e s operands} (h : e.toList? = some (.sym "define" :: operands))
    (hvalue : ∀ name value, operands ≠ [.sym name, value])
    (hprocedure : ∀ l target params body, operands ≠ .pair l target params :: body) :
    Evaluates limit d f e s (.error ⟨.malformed .defineOperands, e⟩) s
  -- `(set! name value)`
  | assign {d f e s name value v s₁ s₂} (h : e.toList? = some [.sym "set!", .sym name, value])
    (hvalue : Starts limit (d + 1) f value s (.ok v) s₁) (ha : s₁.assign f name v = some s₂) :
    Evaluates limit d f e s (.ok v) s₂
  | assignUnbound {d f e s name value v s₁} (h : e.toList? = some [.sym "set!", .sym name, value])
    (hvalue : Starts limit (d + 1) f value s (.ok v) s₁) (ha : s₁.assign f name v = none) :
    Evaluates limit d f e s (.error ⟨.undefinedAssignment name, e⟩) s₁
  | assignRaised {d f e s name value r s₁} (h : e.toList? = some [.sym "set!", .sym name, value])
    (hvalue : Starts limit (d + 1) f value s (.error r) s₁) : Evaluates limit d f e s (.error r) s₁
  | assignMalformed {d f e s operands} (h : e.toList? = some (.sym "set!" :: operands))
    (hn : ∀ name value, operands ≠ [.sym name, value]) :
    Evaluates limit d f e s (.error ⟨.malformed .assignOperands, e⟩) s
  -- `(lambda params . body)`
  | lambda {d f l l₁ params body exprs s o s'} (h : body.toList? = some exprs)
    (hc : Closes none params body f (.pair l (.sym "lambda") (.pair l₁ params body)) s o s') :
    Evaluates limit d f (.pair l (.sym "lambda") (.pair l₁ params body)) s o s'
  | lambdaMalformed {d f e s} (h : e.toList? = some [.sym "lambda"]) :
    Evaluates limit d f e s (.error ⟨.malformed .lambdaOperands, e⟩) s
  -- `(begin . body)`
  | sequence {d f e s body o s'} (h : e.toList? = some (.sym "begin" :: body)) (hb : RunsBody limit d f body s o s') :
    Evaluates limit d f e s o s'
  -- `(let bindings . body)`
  | binding {d f e s bindings items body inner s₁ o s'} (h : e.toList? = some (.sym "let" :: bindings :: body))
    (hitems : bindings.toList? = some items) (hbind : Binds limit d f e items { parent := some f } s (.ok inner) s₁)
    (hne : body ≠ []) (hb : RunsBody limit d (s₁.addFrame inner).1 body (s₁.addFrame inner).2 o s') :
    Evaluates limit d f e s o s'
  | bindingRaised {d f e s bindings items body r s₁} (h : e.toList? = some (.sym "let" :: bindings :: body))
    (hitems : bindings.toList? = some items) (hbind : Binds limit d f e items { parent := some f } s (.error r) s₁) :
    Evaluates limit d f e s (.error r) s₁
  | bindingNoBody {d f e s bindings items inner s₁} (h : e.toList? = some [.sym "let", bindings])
    (hitems : bindings.toList? = some items) (hbind : Binds limit d f e items { parent := some f } s (.ok inner) s₁) :
    Evaluates limit d f e s (.error ⟨.malformed .bindingBody, e⟩) s₁
  | bindingMalformed {d f e s operands} (h : e.toList? = some (.sym "let" :: operands))
    (hn : operands.head?.bind Value.toList? = none) : Evaluates limit d f e s (.error ⟨.malformed .bindingList, e⟩) s
  -- `(and . operands)` and `(or . operands)`
  | conjunction {d f e s operands o s'} (h : e.toList? = some (.sym "and" :: operands))
    (hu : RunsUntil limit false d f operands s o s') : Evaluates limit d f e s o s'
  | disjunction {d f e s operands o s'} (h : e.toList? = some (.sym "or" :: operands))
    (hu : RunsUntil limit true d f operands s o s') : Evaluates limit d f e s o s'
  -- `(head . operands)`
  | call {d f e s head operands p s₁ args s₂ o s'} (h : e.toList? = some (head :: operands)) (hk : head.NoKeyword)
    (hhead : Starts limit (d + 1) f head s (.ok p) s₁) (hargs : EvaluatesAll limit d f operands s₁ (.ok args) s₂)
    (ha : Applies limit d e p args s₂ o s') : Evaluates limit d f e s o s'
  | headRaised {d f e s head operands r s₁} (h : e.toList? = some (head :: operands)) (hk : head.NoKeyword)
    (hhead : Starts limit (d + 1) f head s (.error r) s₁) : Evaluates limit d f e s (.error r) s₁
  | argsRaised {d f e s head operands p s₁ r s₂} (h : e.toList? = some (head :: operands)) (hk : head.NoKeyword)
    (hhead : Starts limit (d + 1) f head s (.ok p) s₁) (hargs : EvaluatesAll limit d f operands s₁ (.error r) s₂) :
    Evaluates limit d f e s (.error r) s₂

/-- Expressions in turn; the last one is in tail position. -/
inductive RunsBody (limit : Nat) : Nat → FrameId → List Value → Store → Except Raised Value → Store → Prop where
  | none {d f s} : RunsBody limit d f [] s (.ok .nil) s
  | last {d f e s o s'} (he : Evaluates limit d f e s o s') : RunsBody limit d f [e] s o s'
  | next {d f e es s v s₁ o s'} (hne : es ≠ []) (he : Starts limit (d + 1) f e s (.ok v) s₁)
    (hes : RunsBody limit d f es s₁ o s') :
    RunsBody limit d f (e :: es) s o s'
  | raised {d f e es s r s₁} (hne : es ≠ []) (he : Starts limit (d + 1) f e s (.error r) s₁) :
    RunsBody limit d f (e :: es) s (.error r) s₁

/-- Expressions in turn up to the first value as true as `stop`; the last one is in tail position. -/
inductive RunsUntil (limit : Nat) : Bool → Nat → FrameId → List Value → Store → Except Raised Value → Store → Prop where
  | none {stop d f s} : RunsUntil limit stop d f [] s (.ok (.bool !stop)) s
  | last {stop d f e s o s'} (he : Evaluates limit d f e s o s') : RunsUntil limit stop d f [e] s o s'
  | stopped {stop d f e es s v s₁} (hne : es ≠ []) (he : Starts limit (d + 1) f e s (.ok v) s₁)
    (hv : v.isTruthy = stop) :
    RunsUntil limit stop d f (e :: es) s (.ok v) s₁
  | next {stop d f e es s v s₁ o s'} (hne : es ≠ []) (he : Starts limit (d + 1) f e s (.ok v) s₁)
    (hv : v.isTruthy ≠ stop) (hes : RunsUntil limit stop d f es s₁ o s') : RunsUntil limit stop d f (e :: es) s o s'
  | raised {stop d f e es s r s₁} (hne : es ≠ []) (he : Starts limit (d + 1) f e s (.error r) s₁) :
    RunsUntil limit stop d f (e :: es) s (.error r) s₁

/-- Operands from left to right. -/
inductive EvaluatesAll (limit : Nat) :
    Nat → FrameId → List Value → Store → Except Raised (List Value) → Store → Prop where
  | nil {d f s} : EvaluatesAll limit d f [] s (.ok []) s
  | cons {d f e es s v s₁ vs s'} (he : Starts limit (d + 1) f e s (.ok v) s₁)
    (hes : EvaluatesAll limit d f es s₁ (.ok vs) s') :
    EvaluatesAll limit d f (e :: es) s (.ok (v :: vs)) s'
  | first {d f e es s r s₁} (he : Starts limit (d + 1) f e s (.error r) s₁) :
    EvaluatesAll limit d f (e :: es) s (.error r) s₁
  | later {d f e es s v s₁ r s'} (he : Starts limit (d + 1) f e s (.ok v) s₁)
    (hes : EvaluatesAll limit d f es s₁ (.error r) s') :
    EvaluatesAll limit d f (e :: es) s (.error r) s'

/-- The bindings of a `let`, added to `inner` in turn; the values are computed outside of it. -/
inductive Binds (limit : Nat) : Nat → FrameId → Value → List Value → Frame → Store → Except Raised Frame →
    Store → Prop where
  | nil {d f blame inner s} : Binds limit d f blame [] inner s (.ok inner) s
  | cons {d f blame item items name init inner s v s₁ o s'} (h : item.toList? = some [.sym name, init])
    (hinit : Starts limit (d + 1) f init s (.ok v) s₁)
    (hitems : Binds limit d f blame items (inner.define name v) s₁ o s') :
    Binds limit d f blame (item :: items) inner s o s'
  | raised {d f blame item items name init inner s r s₁} (h : item.toList? = some [.sym name, init])
    (hinit : Starts limit (d + 1) f init s (.error r) s₁) : Binds limit d f blame (item :: items) inner s (.error r) s₁
  | malformed {d f blame item items inner s} (h : ∀ name init, item.toList? ≠ some [.sym name, init]) :
    Binds limit d f blame (item :: items) inner s (.error ⟨.malformed .bindingList, blame⟩) s

/-- A procedure called with arguments by the expression `e`. -/
inductive Applies (limit : Nat) : Nat → Value → Value → List Value → Store → Except Raised Value → Store → Prop where
  | value {d e p args s v} (h : p.call args = .value v) : Applies limit d e (.prim p) args s (.ok v) s
  | chain {d e p args s items tail} (h : p.call args = .chain items tail) :
    Applies limit d e (.prim p) args s (.ok (s.chain items tail).1) (s.chain items tail).2
  | failure {d e p args s error} (h : p.call args = .failure error) :
    Applies limit d e (.prim p) args s (.error ⟨error, e⟩) s
  | closure {d e l name ps body f args s o s'} (h : ps.arity.accepts args.length = true)
    (hb : RunsBody limit d (s.bind ps args f).1 body.elements (s.bind ps args f).2 o s') :
    Applies limit d e (.closure l name ps body f) args s o s'
  | mismatch {d e l name ps body f args s} (h : ps.arity.accepts args.length = false) :
    Applies limit d e (.closure l name ps body f) args s
      (.error ⟨.unexpectedArity (name.getD "lambda") ps.arity args.length, e⟩) s
  | uncallable {d e p args s} (h : p.kind ≠ .procedure) : Applies limit d e p args s (.error ⟨.uncallable p.kind, e⟩) s

end

end LispSession
