import LispSession.Proofs.Evaluation.Completeness
import LispSession.Proofs.Evaluation.Primitives
import Mathlib.Logic.Relation
/-!
# What an error blames

An error is raised by the evaluation of one expression, and blames that expression.  From there it goes through all the
evaluations around it and none of them touches it (`Inner.raised`); so what an error says of the expression that it
blames can be read off the rules that raise one (`EvalError.Fits`).

An evaluation is known by what it begins with (`Onset`), and `Inner` leads from an evaluation to one that is done as a
part of it: to the subexpressions whose turn comes, and to the expression in tail position that the evaluation goes on
with.
-/
namespace LispSession

/-- What an evaluation begins with: its level, its frame, its expression and the store. -/
structure Onset where
  depth : Nat
  frame : FrameId
  expression : Value
  store : Store

namespace Onset

/-- The evaluation comes to an outcome, and leaves a store behind. -/
def Ends (limit : Nat) (a : Onset) (o : Except Raised Value) (s' : Store) : Prop :=
  ∃ fuel, evaluate limit fuel a.frame a.expression ⟨a.store, a.depth⟩ = Run.ended o ⟨s', a.depth⟩

end Onset

variable {limit : Nat}

theorem Starts.of_raised {fuel : Nat} {f : FrameId} {e : Value} {m m' : Machine} {r : Raised}
    (h : evaluate limit fuel f e m = .error (.raised r) m') : Starts limit m.depth f e m.store (.error r) m'.store := by
  obtain ⟨m'', hm⟩ | ⟨o, s', hended, hstarts⟩ := evaluate_yields limit fuel m.depth f e m.store
  · cases h.symm.trans hm
  · rw [h] at hended
    cases o with
    | ok v => cases hended
    | error r' => cases hended; exact hstarts

theorem Onset.ends_iff {a : Onset} {o : Except Raised Value} {s' : Store} :
    a.Ends limit o s' ↔ Starts limit a.depth a.frame a.expression a.store o s' :=
  ⟨fun ⟨_, h⟩ => .of_ended h, fun h => h.exists_fuel⟩

/-! ## Evaluations within evaluations -/

/-- Out of expressions that are evaluated in turn, one whose turn comes.  The last one is in tail position.  If there is
a `stop`, then no value before it is as true as that. -/
inductive Turn (limit : Nat) (stop : Option Bool) (d : Nat) (f : FrameId) : List Value → Store → Onset → Prop where
  | last {e s} : Turn limit stop d f [e] s ⟨d, f, e, s⟩
  | here {e es s} (hne : es ≠ []) : Turn limit stop d f (e :: es) s ⟨d + 1, f, e, s⟩
  | later {e es s v s₁ b} (hne : es ≠ []) (he : Starts limit (d + 1) f e s (.ok v) s₁) (hv : stop ≠ some v.isTruthy)
    (hes : Turn limit stop d f es s₁ b) : Turn limit stop d f (e :: es) s b

/-- Out of operands, one whose turn comes. -/
inductive Operand (limit : Nat) (d : Nat) (f : FrameId) : List Value → Store → Onset → Prop where
  | here {e es s} : Operand limit d f (e :: es) s ⟨d + 1, f, e, s⟩
  | later {e es s v s₁ b} (he : Starts limit (d + 1) f e s (.ok v) s₁) (hes : Operand limit d f es s₁ b) :
    Operand limit d f (e :: es) s b

/-- Out of bindings, one whose turn comes. -/
inductive Init (limit : Nat) (d : Nat) (f : FrameId) : List Value → Store → Onset → Prop where
  | here {item items name init s} (h : item.toList? = some [.sym name, init]) :
    Init limit d f (item :: items) s ⟨d + 1, f, init, s⟩
  | later {item items name init s v s₁ b} (h : item.toList? = some [.sym name, init])
    (hinit : Starts limit (d + 1) f init s (.ok v) s₁) (hitems : Init limit d f items s₁ b) :
    Init limit d f (item :: items) s b

/-- What is evaluated as a part of a special form with such operands: one level deeper, or in tail position. -/
inductive FormPart (limit : Nat) (d : Nat) (f : FrameId) (e : Value) (s : Store) :
    SpecialForm → List Value → Onset → Prop where
  | test {test consequent alternative} (hn : alternative.length ≤ 1) :
    FormPart limit d f e s .cond (test :: consequent :: alternative) ⟨d + 1, f, test, s⟩
  | consequent {test consequent alternative v s₁} (hn : alternative.length ≤ 1)
    (htest : Starts limit (d + 1) f test s (.ok v) s₁) (hv : v.isTruthy = true) :
    FormPart limit d f e s .cond (test :: consequent :: alternative) ⟨d, f, consequent, s₁⟩
  | alternative {test consequent alternative v s₁} (htest : Starts limit (d + 1) f test s (.ok v) s₁)
    (hv : v.isTruthy = false) :
    FormPart limit d f e s .cond [test, consequent, alternative] ⟨d, f, alternative, s₁⟩
  | define {name value} : FormPart limit d f e s .define [.sym name, value] ⟨d + 1, f, value, s⟩
  | assign {name value} : FormPart limit d f e s .assign [.sym name, value] ⟨d + 1, f, value, s⟩
  | sequence {body b} (hb : Turn limit none d f body s b) : FormPart limit d f e s .sequence body b
  | init {bindings items body b} (hitems : bindings.toList? = some items) (hb : Init limit d f items s b) :
    FormPart limit d f e s .binding (bindings :: body) b
  | binding {bindings items body inner s₁ b} (hitems : bindings.toList? = some items)
    (hbind : Binds limit d f e items { parent := some f } s (.ok inner) s₁)
    (hb : Turn limit none d (s₁.addFrame inner).1 body (s₁.addFrame inner).2 b) :
    FormPart limit d f e s .binding (bindings :: body) b
  | conjunction {operands b} (hb : Turn limit (some false) d f operands s b) :
    FormPart limit d f e s .conjunction operands b
  | disjunction {operands b} (hb : Turn limit (some true) d f operands s b) :
    FormPart limit d f e s .disjunction operands b

/-- Out of the body of a closure that is called, an expression whose turn comes. -/
inductive Entered (limit : Nat) (d : Nat) (args : List Value) (s : Store) : Value → Onset → Prop where
  | closure {l name ps body g b} (hps : ps.arity.accepts args.length = true)
    (hb : Turn limit none d (s.bind ps args g).1 body.elements (s.bind ps args g).2 b) :
    Entered limit d args s (.closure l name ps body g) b

/-- What is evaluated as a part of a call. -/
inductive CallPart (limit : Nat) (d : Nat) (f : FrameId) (s : Store) (head : Value) (operands : List Value) :
    Onset → Prop where
  | head : CallPart limit d f s head operands ⟨d + 1, f, head, s⟩
  | operand {p s₁ b} (hhead : Starts limit (d + 1) f head s (.ok p) s₁) (hb : Operand limit d f operands s₁ b) :
    CallPart limit d f s head operands b
  | body {p s₁ args s₂ b} (hhead : Starts limit (d + 1) f head s (.ok p) s₁)
    (hargs : EvaluatesAll limit d f operands s₁ (.ok args) s₂) (hb : Entered limit d args s₂ p b) :
    CallPart limit d f s head operands b

/-- An evaluation that there is room for, and one that is next done as a part of it. -/
inductive Inner (limit : Nat) : Onset → Onset → Prop where
  | form {d f e s operands b} (form : SpecialForm) (hd : d < limit) (h : e.toList? = some (.sym form.name :: operands))
    (hb : FormPart limit d f e s form operands b) : Inner limit ⟨d, f, e, s⟩ b
  | call {d f e s head operands b} (hd : d < limit) (h : e.toList? = some (head :: operands)) (hk : head.NoKeyword)
    (hb : CallPart limit d f s head operands b) : Inner limit ⟨d, f, e, s⟩ b

/-! ## An error goes through -/

section Raised

variable {d : Nat} {f : FrameId} {s s' : Store} {b : Onset} {r : Raised}

/-- What ends in an error in tail position ends the body that it stands in. -/
theorem Starts.evaluates {e : Value} {o : Except Raised Value} (hd : d < limit) (h : Starts limit d f e s o s') :
    Evaluates limit d f e s o s' := by
  cases h with
  | tooDeep h => exact absurd hd (Nat.not_lt.2 h)
  | within _ he => exact he

theorem Turn.ne_nil {stop : Option Bool} {es : List Value} (h : Turn limit stop d f es s b) : es ≠ [] := by
  cases h <;> exact List.cons_ne_nil _ _

theorem Turn.body_raised {es : List Value} (hd : d < limit) (h : Turn limit none d f es s b)
    (hb : Starts limit b.depth b.frame b.expression b.store (.error r) s') : RunsBody limit d f es s (.error r) s' := by
  induction h with
  | last => exact .last (hb.evaluates hd)
  | here hne => exact .raised hne hb
  | later hne he _ _ ih => exact .next hne he (ih hb)

theorem Turn.until_raised {stop : Bool} {es : List Value} (hd : d < limit) (h : Turn limit (some stop) d f es s b)
    (hb : Starts limit b.depth b.frame b.expression b.store (.error r) s') :
    RunsUntil limit stop d f es s (.error r) s' := by
  induction h with
  | last => exact .last (hb.evaluates hd)
  | here hne => exact .raised hne hb
  | later hne he hv _ ih => exact .next hne he (fun heq => hv (congrArg some heq.symm)) (ih hb)

theorem Operand.raised {es : List Value} (h : Operand limit d f es s b)
    (hb : Starts limit b.depth b.frame b.expression b.store (.error r) s') :
    EvaluatesAll limit d f es s (.error r) s' := by
  induction h with
  | here => exact .first hb
  | later he _ ih => exact .later he (ih hb)

theorem Init.raised {items : List Value} {blame : Value} (h : Init limit d f items s b)
    (hb : Starts limit b.depth b.frame b.expression b.store (.error r) s') (inner : Frame) :
    Binds limit d f blame items inner s (.error r) s' := by
  induction h generalizing inner with
  | here h => exact .raised h hb
  | later h hinit _ ih => exact .cons h hinit (ih hb _)

theorem FormPart.raised {e : Value} {form : SpecialForm} {operands : List Value} (hd : d < limit)
    (h : e.toList? = some (.sym form.name :: operands)) (hpart : FormPart limit d f e s form operands b)
    (hb : Starts limit b.depth b.frame b.expression b.store (.error r) s') : Evaluates limit d f e s (.error r) s' := by
  cases hpart with
  | test hn => exact .condRaised h hn hb
  | consequent hn htest hv => exact .condTrue h hn htest hv (hb.evaluates hd)
  | alternative htest hv => exact .condFalse h htest hv (hb.evaluates hd)
  | define => exact .defineRaised h hb
  | assign => exact .assignRaised h hb
  | sequence ht => exact .sequence h (ht.body_raised hd hb)
  | init hitems hi => exact .bindingRaised h hitems (hi.raised hb _)
  | binding hitems hbind ht => exact .binding h hitems hbind ht.ne_nil (ht.body_raised hd hb)
  | conjunction ht => exact .conjunction h (ht.until_raised hd hb)
  | disjunction ht => exact .disjunction h (ht.until_raised hd hb)

theorem CallPart.raised {e head : Value} {operands : List Value} (hd : d < limit)
    (h : e.toList? = some (head :: operands)) (hk : head.NoKeyword) (hpart : CallPart limit d f s head operands b)
    (hb : Starts limit b.depth b.frame b.expression b.store (.error r) s') : Evaluates limit d f e s (.error r) s' := by
  cases hpart with
  | head => exact .headRaised h hk hb
  | operand hhead ho => exact .argsRaised h hk hhead (ho.raised hb)
  | body hhead hargs hentered =>
    obtain ⟨hps, ht⟩ := hentered
    exact .call h hk hhead hargs (.closure hps (ht.body_raised hd hb))

/-- **An error is not touched on its way out.** -/
theorem Inner.raised {a : Onset} (h : Inner limit a b)
    (hb : Starts limit b.depth b.frame b.expression b.store (.error r) s') :
    Starts limit a.depth a.frame a.expression a.store (.error r) s' := by
  cases h with
  | form form hd h hpart => exact .within hd (hpart.raised hd h hb)
  | call hd h hk hpart => exact .within hd (hpart.raised hd h hk hb)

end Raised

/-! ## What an error says of the expression that it blames -/

/-- What the blamed expression is like. -/
def EvalError.Fits (limit : Nat) (blame : Value) : EvalError → Prop
  | .undefinedVariable name => blame = .sym name
  | .improperList => ∃ l front back, blame = .pair l front back ∧ back.toList? = none
  | .undefinedAssignment name => ∃ value, blame.toList? = some [.sym "set!", .sym name, value]
  | .malformed what => ∃ operands, blame.toList? = some (.sym what.form.name :: operands) ∨
      what.form = .lambda ∧ blame.toList? = some (.sym "define" :: operands)
  | .recursionLimit n => n = limit
  | .unexpectedArity _ _ _ | .operandType _ _ _ | .divisionByZero | .user _ | .uncallable _ =>
    ∃ head operands, blame.toList? = some (head :: operands) ∧ head.NoKeyword

/-- An evaluation that raises an error itself: it blames its own expression, and all that was done as a part of it came
to a value. -/
structure Onset.Raises (limit : Nat) (b : Onset) (r : Raised) (s' : Store) : Prop where
  ends : b.Ends limit (.error r) s'
  blamed : r.blame = b.expression
  fits : r.error.Fits limit r.blame
  inner : ∀ c, Inner limit b c → ∃ v s'', c.Ends limit (.ok v) s''

/-- An error, if there is one, is raised by one of these evaluations, or within it. -/
def Traced {α : Type} (limit : Nat) (P : Onset → Prop) : Except Raised α → Store → Prop
  | .ok _, _ => True
  | .error r, s' => ∃ b, P b ∧ ∃ c, Relation.ReflTransGen (Inner limit) b c ∧ c.Raises limit r s'

namespace Traced

variable {α : Type} {P Q : Onset → Prop} {o : Except Raised α} {s' : Store}

theorem mono (h : Traced limit P o s') (hPQ : ∀ b, P b → Q b) : Traced limit Q o s' := by
  cases o with
  | ok a => trivial
  | error r =>
    obtain ⟨b, hb, hc⟩ := h
    exact ⟨b, hPQ b hb, hc⟩

theorem inner {a : Onset} (h : Traced limit P o s') (hP : ∀ b, P b → Inner limit a b) : Traced limit (· = a) o s' := by
  cases o with
  | ok a => trivial
  | error r =>
    obtain ⟨b, hb, c, hc, hraises⟩ := h
    exact ⟨a, rfl, c, .head (hP b hb) hc, hraises⟩

theorem raises {a : Onset} {r : Raised} (h : a.Raises limit r s') : Traced (α := α) limit (· = a) (.error r) s' :=
  ⟨a, rfl, a, .refl, h⟩

end Traced

/-! ## Evaluations that raise an error themselves -/

section Raising

variable {d : Nat} {f : FrameId} {e : Value} {s s' s₁ s₂ : Store} {r : Raised} {operands : List Value} {a b c : Onset}

theorem SpecialForm.name_inj {form form' : SpecialForm} (h : form.name = form'.name) : form = form' := by
  have hform := SpecialForm.ofName?_name form
  rw [h, SpecialForm.ofName?_name] at hform
  exact (Option.some.inj hform).symm

theorem Value.toList?_pair_pair {l l₁ : Label} {front second rest : Value} {items : List Value}
    (h : rest.toList? = some items) :
    (Value.pair l front (.pair l₁ second rest)).toList? = some (front :: second :: items) := by
  rw [toList?_pair, toList?_pair, h]
  rfl

theorem FormPart.cond_length (h : FormPart limit d f e s .cond operands b) :
    operands.length = 2 ∨ operands.length = 3 := by
  cases h with
  | test hn | consequent hn =>
    simp only [List.length_cons]
    omega
  | alternative => exact .inr rfl

theorem Inner.toList? (h : Inner limit a b) :
    a.depth < limit ∧ ∃ head operands, a.expression.toList? = some (head :: operands) := by
  cases h with
  | form form hd h => exact ⟨hd, _, _, h⟩
  | call hd h => exact ⟨hd, _, _, h⟩

theorem Inner.formPart (form : SpecialForm) (h : Inner limit ⟨d, f, e, s⟩ b)
    (he : e.toList? = some (.sym form.name :: operands)) :
    FormPart limit d f e s form operands b := by
  cases h with
  | form form' hd h hpart =>
    obtain ⟨hname, rfl⟩ := List.cons.inj (Option.some.inj (he.symm.trans h))
    obtain rfl := SpecialForm.name_inj (Value.sym.inj hname)
    exact hpart
  | call hd h hk =>
    obtain ⟨rfl, -⟩ := List.cons.inj (Option.some.inj (he.symm.trans h))
    exact absurd rfl (hk form)

theorem Inner.callPart {head : Value} (h : Inner limit ⟨d, f, e, s⟩ b) (he : e.toList? = some (head :: operands))
    (hk : head.NoKeyword) : CallPart limit d f s head operands b := by
  cases h with
  | form form hd h =>
    obtain ⟨rfl, -⟩ := List.cons.inj (Option.some.inj (he.symm.trans h))
    exact absurd rfl (hk form)
  | call hd h _ hpart =>
    obtain ⟨rfl, rfl⟩ := List.cons.inj (Option.some.inj (he.symm.trans h))
    exact hpart

/-- What raises an error: an evaluation that fails with its own expression to blame, all that was done as a part of it
having come to a value. -/
theorem Evaluates.raises {error : EvalError} (hd : d < limit) (h : Evaluates limit d f e s (.error ⟨error, e⟩) s')
    (hfits : error.Fits limit e) (hinner : ∀ c, Inner limit ⟨d, f, e, s⟩ c → ∃ v s'', c.Ends limit (.ok v) s'') :
    Traced (α := Value) limit (· = ⟨d, f, e, s⟩) (.error ⟨error, e⟩) s' :=
  .raises ⟨Onset.ends_iff.2 (.within hd h), rfl, hfits, hinner⟩

theorem Evaluates.raises_atom {error : EvalError} (hd : d < limit) (h : Evaluates limit d f e s (.error ⟨error, e⟩) s')
    (hfits : error.Fits limit e) (he : ∀ head operands, e.toList? ≠ some (head :: operands)) :
    Traced (α := Value) limit (· = ⟨d, f, e, s⟩) (.error ⟨error, e⟩) s' :=
  h.raises hd hfits fun c hc => by
    obtain ⟨-, head, operands, hlist⟩ := hc.toList?
    exact absurd hlist (he head operands)

theorem Evaluates.raises_malformed (form : SpecialForm) {what : Malformation} (hd : d < limit)
    (h : Evaluates limit d f e s (.error ⟨.malformed what, e⟩) s') (he : e.toList? = some (.sym form.name :: operands))
    (hform : what.form = form ∨ what.form = .lambda ∧ form = .define)
    (hparts : ∀ c, FormPart limit d f e s form operands c → ∃ v s'', c.Ends limit (.ok v) s'') :
    Traced (α := Value) limit (· = ⟨d, f, e, s⟩) (.error ⟨.malformed what, e⟩) s' := by
  refine h.raises hd ⟨operands, ?_⟩ fun c hc => hparts c (hc.formPart form he)
  obtain rfl | ⟨hlambda, rfl⟩ := hform
  · exact .inl he
  · exact .inr ⟨hlambda, he⟩

/-- A closure that cannot be made. -/
theorem Closes.raises {name : Option String} {params body : Value} (form : SpecialForm)
    (hc : Closes name params body f e s (.error r) s₁) (hd : d < limit) (h : Evaluates limit d f e s (.error r) s')
    (he : e.toList? = some (.sym form.name :: operands)) (hform : form = .lambda ∨ form = .define)
    (hparts : ∀ c, ¬FormPart limit d f e s form operands c) :
    Traced (α := Value) limit (· = ⟨d, f, e, s⟩) (.error r) s' := by
  have hform' : SpecialForm.lambda = form ∨ SpecialForm.lambda = .lambda ∧ form = .define := by
    obtain rfl | rfl := hform
    · exact .inl rfl
    · exact .inr ⟨rfl, rfl⟩
  cases hc with
  | noBody => exact h.raises_malformed form hd he hform' fun c hc => absurd hc (hparts c)
  | badParameters => exact h.raises_malformed form hd he hform' fun c hc => absurd hc (hparts c)

theorem Operand.ok {es args : List Value} (h : EvaluatesAll limit d f es s (.ok args) s')
    (hb : Operand limit d f es s b) :
    ∃ v s'', b.Ends limit (.ok v) s'' := by
  induction hb generalizing args with
  | here =>
    cases h with
    | cons he => exact ⟨_, _, Onset.ends_iff.2 he⟩
  | later he' _ ih =>
    cases h with
    | cons he hes =>
      obtain ⟨hv, rfl⟩ := he.unique he'
      exact ih hes

theorem EvaluatesAll.unique {es args args' : List Value} (h : EvaluatesAll limit d f es s (.ok args) s₁)
    (h' : EvaluatesAll limit d f es s (.ok args') s₂) : args = args' ∧ s₁ = s₂ := by
  induction es generalizing s args args' with
  | nil => cases h; cases h'; exact ⟨rfl, rfl⟩
  | cons e es ih =>
    cases h with
    | cons he hes =>
      cases h' with
      | cons he' hes' =>
        obtain ⟨hv, rfl⟩ := he.unique he'
        cases hv
        obtain ⟨rfl, rfl⟩ := ih hes hes'
        exact ⟨rfl, rfl⟩

theorem Binds.items {items : List Value} {blame : Value} {inner inner' : Frame}
    (h : Binds limit d f blame items inner s (.ok inner') s') :
    ∀ item ∈ items, ∃ name init, item.toList? = some [.sym name, init] := by
  induction items generalizing inner s with
  | nil => nofun
  | cons item items ih =>
    cases h with
    | cons h _ hitems => exact List.forall_mem_cons.2 ⟨⟨_, _, h⟩, ih hitems⟩

theorem Init.ok {items : List Value} {blame : Value} {inner inner' : Frame}
    (h : Binds limit d f blame items inner s (.ok inner') s') (hb : Init limit d f items s b) :
    ∃ v s'', b.Ends limit (.ok v) s'' := by
  induction hb generalizing inner with
  | here hitem' =>
    cases h with
    | cons hitem hinit =>
      cases hitem.symm.trans hitem'
      exact ⟨_, _, Onset.ends_iff.2 hinit⟩
  | later hitem' hinit' _ ih =>
    cases h with
    | cons hitem hinit hitems =>
      cases hitem.symm.trans hitem'
      obtain ⟨hv, rfl⟩ := hinit.unique hinit'
      exact ih hitems

/-- The errors of a call. -/
def EvalError.OfCall (error : EvalError) : Prop := error.OfPrimitive ∨ ∃ kind, error = .uncallable kind

theorem EvalError.OfCall.fits {error : EvalError} {head : Value} (h : error.OfCall)
    (he : e.toList? = some (head :: operands)) (hk : head.NoKeyword) : error.Fits limit e := by
  have hcall : ∃ head operands, e.toList? = some (head :: operands) ∧ head.NoKeyword := ⟨head, operands, he, hk⟩
  obtain h | ⟨kind, rfl⟩ := h
  · cases error <;> first | exact hcall | exact absurd h id
  · exact hcall

/-! ## Every error can be traced -/

/-- The bindings of a `let` fail with one of the values, or at a binding of the wrong shape behind good ones. -/
def InitsTraced (limit d : Nat) (f : FrameId) (blame : Value) (items : List Value) (s : Store) (o : Except Raised Frame)
    (s' : Store) : Prop :=
  Traced limit (Init limit d f items s) o s' ∨
    o = .error ⟨.malformed .bindingList, blame⟩ ∧ (∃ item ∈ items, ∀ name init, item.toList? ≠ some [.sym name, init]) ∧
      ∀ c, Init limit d f items s c → ∃ v s'', c.Ends limit (.ok v) s''

theorem InitsTraced.cons {blame item init v : Value} {items : List Value} {name : String} {o : Except Raised Frame}
    (h : item.toList? = some [.sym name, init]) (hinit : Starts limit (d + 1) f init s (.ok v) s₁)
    (hitems : InitsTraced limit d f blame items s₁ o s') : InitsTraced limit d f blame (item :: items) s o s' := by
  obtain htraced | ⟨rfl, ⟨item', hmem, hitem'⟩, hvalues⟩ := hitems
  · exact .inl (htraced.mono fun b hb => .later h hinit hb)
  · refine .inr ⟨rfl, ⟨item', List.mem_cons_of_mem _ hmem, hitem'⟩, fun c hc => ?_⟩
    cases hc with
    | here h' =>
      cases h.symm.trans h'
      exact ⟨_, _, Onset.ends_iff.2 hinit⟩
    | later h' hinit' hc =>
      cases h.symm.trans h'
      obtain ⟨-, rfl⟩ := hinit.unique hinit'
      exact hvalues c hc

theorem InitsTraced.malformed {blame item : Value} {items : List Value}
    (h : ∀ name init, item.toList? ≠ some [.sym name, init]) :
    InitsTraced limit d f blame (item :: items) s (.error ⟨.malformed .bindingList, blame⟩) s := by
  refine .inr ⟨rfl, ⟨item, List.mem_cons_self, h⟩, fun c hc => ?_⟩
  cases hc with
  | here h' => exact absurd h' (h _ _)
  | later h' => exact absurd h' (h _ _)

theorem InitsTraced.binding {bindings : Value} {items body : List Value} (hd : d < limit)
    (h : e.toList? = some (.sym "let" :: bindings :: body)) (hitems : bindings.toList? = some items)
    (hbind : Binds limit d f e items { parent := some f } s (.error r) s₁)
    (htraced : InitsTraced limit d f e items s (.error r) s₁) :
    Traced (α := Value) limit (· = ⟨d, f, e, s⟩) (.error r) s₁ := by
  obtain htraced | ⟨hr, ⟨item, hmem, hitem⟩, hvalues⟩ := htraced
  · exact Traced.inner (α := Value) htraced fun b hb => .form .binding hd h (.init hitems hb)
  · cases hr
    refine Evaluates.raises_malformed .binding hd (.bindingRaised h hitems hbind) h (.inl rfl) fun c hc => ?_
    cases hc with
    | init hitems' hb =>
      cases hitems.symm.trans hitems'
      exact hvalues c hb
    | binding hitems' hbind' =>
      cases hitems.symm.trans hitems'
      obtain ⟨name, init, hshape⟩ := hbind'.items item hmem
      exact absurd hshape (hitem name init)

/-- A call fails in the body that it enters, or on its own without entering one. -/
def CallTraced (limit d : Nat) (e p : Value) (args : List Value) (s : Store) (o : Except Raised Value)
    (s' : Store) : Prop :=
  Traced limit (Entered limit d args s p) o s' ∨
    ∃ error : EvalError, o = .error ⟨error, e⟩ ∧ error.OfCall ∧ ∀ c, ¬Entered limit d args s p c

theorem CallTraced.call {head p : Value} {args : List Value} {o : Except Raised Value} (hd : d < limit)
    (h : e.toList? = some (head :: operands)) (hk : head.NoKeyword) (hhead : Starts limit (d + 1) f head s (.ok p) s₁)
    (hargs : EvaluatesAll limit d f operands s₁ (.ok args) s₂) (ha : Applies limit d e p args s₂ o s')
    (htraced : CallTraced limit d e p args s₂ o s') :
    Traced limit (· = ⟨d, f, e, s⟩) o s' := by
  obtain htraced | ⟨error, rfl, hcall, hnone⟩ := htraced
  · exact htraced.inner fun b hb => .call hd h hk (.body hhead hargs hb)
  · refine Evaluates.raises hd (.call h hk hhead hargs ha) (hcall.fits h hk) fun c hc => ?_
    cases hc.callPart h hk with
    | head => exact ⟨_, _, Onset.ends_iff.2 hhead⟩
    | operand hhead' hb =>
      obtain ⟨-, rfl⟩ := hhead.unique hhead'
      exact hb.ok hargs
    | body hhead' hargs' hb =>
      obtain ⟨hp, rfl⟩ := hhead.unique hhead'
      cases hp
      obtain ⟨rfl, rfl⟩ := hargs.unique hargs'
      exact absurd hb (hnone c)

/-! ### Rules that raise an error -/

theorem Evaluates.raises_improper (hd : d < limit) (hpair : e.kind = .pair) (h : e.toList? = none) :
    Traced (α := Value) limit (· = ⟨d, f, e, s⟩) (.error ⟨.improperList, e⟩) s := by
  cases e with
  | pair l front back =>
    refine Evaluates.raises_atom hd (.improper hpair h) ⟨l, front, back, rfl, ?_⟩ (by rw [h]; nofun)
    rwa [Value.toList?_pair, Option.map_eq_none_iff] at h
  | _ => cases hpair

theorem Evaluates.raises_lambda {l l₁ : Label} {params body : Value} {exprs : List Value} {o : Except Raised Value}
    (hd : d < limit) (h : body.toList? = some exprs)
    (hc : Closes none params body f (.pair l (.sym "lambda") (.pair l₁ params body)) s o s') :
    Traced limit (· = ⟨d, f, .pair l (.sym "lambda") (.pair l₁ params body), s⟩) o s' := by
  cases o with
  | ok v => trivial
  | error r => exact hc.raises .lambda hd (.lambda h hc) (Value.toList?_pair_pair h) (.inl rfl) nofun

theorem Evaluates.raises_assignment {name : String} {value v : Value} (hd : d < limit)
    (h : e.toList? = some [.sym "set!", .sym name, value]) (hvalue : Starts limit (d + 1) f value s (.ok v) s₁)
    (ha : s₁.assign f name v = none) :
    Traced (α := Value) limit (· = ⟨d, f, e, s⟩) (.error ⟨.undefinedAssignment name, e⟩) s₁ := by
  refine Evaluates.raises hd (.assignUnbound h hvalue ha) ⟨_, h⟩ fun c hc => ?_
  cases hc.formPart .assign h with
  | assign => exact ⟨_, _, Onset.ends_iff.2 hvalue⟩

theorem Evaluates.raises_bindingNoBody {bindings : Value} {items : List Value} {inner : Frame} (hd : d < limit)
    (h : e.toList? = some [.sym "let", bindings]) (hitems : bindings.toList? = some items)
    (hbind : Binds limit d f e items { parent := some f } s (.ok inner) s₁) :
    Traced (α := Value) limit (· = ⟨d, f, e, s⟩) (.error ⟨.malformed .bindingBody, e⟩) s₁ := by
  refine Evaluates.raises_malformed .binding hd (.bindingNoBody h hitems hbind) h (.inl rfl) fun c hc => ?_
  cases hc with
  | init hitems' hb =>
    cases hitems.symm.trans hitems'
    exact hb.ok hbind
  | binding _ _ hb => cases hb

theorem Evaluates.raises_bindingMalformed (hd : d < limit) (h : e.toList? = some (.sym "let" :: operands))
    (hn : operands.head?.bind Value.toList? = none) :
    Traced (α := Value) limit (· = ⟨d, f, e, s⟩) (.error ⟨.malformed .bindingList, e⟩) s := by
  refine Evaluates.raises_malformed .binding hd (.bindingMalformed h hn) h (.inl rfl) fun c hc => ?_
  cases hc with
  | init hitems => cases hn.symm.trans hitems
  | binding hitems => cases hn.symm.trans hitems

theorem CallTraced.mismatch {l : Label} {name : Option String} {ps : Parameters} {body : Value} {args : List Value}
    (h : ps.arity.accepts args.length = false) :
    CallTraced limit d e (.closure l name ps body f) args s
      (.error ⟨.unexpectedArity (name.getD "lambda") ps.arity args.length, e⟩) s := by
  refine .inr ⟨_, rfl, .inl trivial, fun c hc => ?_⟩
  cases hc with
  | closure haccepts => exact Bool.false_ne_true (h.symm.trans haccepts)

theorem CallTraced.uncallable {p : Value} {args : List Value} (h : p.kind ≠ .procedure) :
    CallTraced limit d e p args s (.error ⟨.uncallable p.kind, e⟩) s := by
  refine .inr ⟨_, rfl, .inr ⟨_, rfl⟩, fun c hc => ?_⟩
  cases hc with
  | closure => exact absurd rfl h

mutual

/-- **Every error can be traced** to the evaluation that raised it, by induction over the derivation.  A rule hands an
error of a premise on, or raises one when all premises have come to values. -/
theorem Starts.traced {d f e s o s'} :
    Starts limit d f e s o s' → Traced limit (· = ⟨d, f, e, s⟩) o s'
  | .tooDeep h => .raises ⟨Onset.ends_iff.2 (.tooDeep h), rfl, rfl, fun _ hc => absurd hc.toList?.1 (Nat.not_lt.2 h)⟩
  | .within hd he => he.traced hd

theorem Evaluates.traced {d f e s o s'} :
    Evaluates limit d f e s o s' → d < limit → Traced limit (· = ⟨d, f, e, s⟩) o s'
  | .itself _ _, _ => trivial
  | .variable _, _ => trivial
  | .unbound h, hd => Evaluates.raises_atom hd (.unbound h) rfl nofun
  | .improper hpair h, hd => Evaluates.raises_improper hd hpair h
  | .quote _, _ => trivial
  | .quoteMalformed h hn, hd => Evaluates.raises_malformed .quote hd (.quoteMalformed h hn) h (.inl rfl) nofun
  | .condTrue h hn htest hv hc, hd =>
    (hc.traced hd).inner fun _ hb => hb ▸ .form .cond hd h (.consequent hn htest hv)
  | .condFalse h htest hv ha, hd =>
    (ha.traced hd).inner fun _ hb => hb ▸ .form .cond hd h (.alternative htest hv)
  | .condNothing _ _ _, _ => trivial
  | .condRaised h hn htest, hd => htest.traced.inner fun _ hb => hb ▸ .form .cond hd h (.test hn)
  | .condMalformed h hn, hd =>
    Evaluates.raises_malformed .cond hd (.condMalformed h hn) h (.inl rfl) fun _ hc => absurd hc.cond_length (by omega)
  | .define _ _, _ => trivial
  | .defineRaised h hvalue, hd => hvalue.traced.inner fun _ hb => hb ▸ .form .define hd h .define
  | .defineProcedure _ _, _ => trivial
  | .defineProcedureMalformed h hc, hd =>
    hc.raises .define hd (.defineProcedureMalformed h hc) (Value.toList?_pair_pair h) (.inr rfl) nofun
  | .defineNameless h ht, hd => Evaluates.raises_malformed .define hd (.defineNameless h ht) h (.inl rfl) nofun
  | .defineMalformed h hvalue hprocedure, hd =>
    Evaluates.raises_malformed .define hd (.defineMalformed h hvalue hprocedure) h (.inl rfl)
      fun _ hc => by cases hc; exact absurd rfl (hvalue _ _)
  | .assign _ _ _, _ => trivial
  | .assignUnbound h hvalue ha, hd => Evaluates.raises_assignment hd h hvalue ha
  | .assignRaised h hvalue, hd => hvalue.traced.inner fun _ hb => hb ▸ .form .assign hd h .assign
  | .assignMalformed h hn, hd =>
    Evaluates.raises_malformed .assign hd (.assignMalformed h hn) h (.inl rfl)
      fun _ hc => by cases hc; exact absurd rfl (hn _ _)
  | .lambda h hc, hd => Evaluates.raises_lambda hd h hc
  | .lambdaMalformed h, hd => Evaluates.raises_malformed .lambda hd (.lambdaMalformed h) h (.inl rfl) nofun
  | .sequence h hb, hd => (hb.traced hd).inner fun _ hb => .form .sequence hd h (.sequence hb)
  | .binding h hitems hbind _ hb, hd =>
    (hb.traced hd).inner fun _ hb => .form .binding hd h (.binding hitems hbind hb)
  | .bindingRaised h hitems hbind, hd => hbind.traced.binding hd h hitems hbind
  | .bindingNoBody h hitems hbind, hd => Evaluates.raises_bindingNoBody hd h hitems hbind
  | .bindingMalformed h hn, hd => Evaluates.raises_bindingMalformed hd h hn
  | .conjunction h hu, hd => (hu.traced hd).inner fun _ hb => .form .conjunction hd h (.conjunction hb)
  | .disjunction h hu, hd => (hu.traced hd).inner fun _ hb => .form .disjunction hd h (.disjunction hb)
  | .call h hk hhead hargs ha, hd => (ha.traced hd).call hd h hk hhead hargs ha
  | .headRaised h hk hhead, hd => hhead.traced.inner fun _ hb => hb ▸ .call hd h hk .head
  | .argsRaised h hk hhead hargs, hd =>
    Traced.inner (α := Value) hargs.traced fun _ hb => .call hd h hk (.operand hhead hb)

theorem RunsBody.traced {d f es s o s'} :
    RunsBody limit d f es s o s' → d < limit → Traced limit (Turn limit none d f es s) o s'
  | .none, _ => trivial
  | .last he, hd => (he.traced hd).mono fun _ hb => hb ▸ .last
  | .next hne he hes, hd => (hes.traced hd).mono fun _ hb => .later hne he nofun hb
  | .raised hne he, _ => he.traced.mono fun _ hb => hb ▸ .here hne

theorem RunsUntil.traced {stop d f es s o s'} :
    RunsUntil limit stop d f es s o s' → d < limit → Traced limit (Turn limit (some stop) d f es s) o s'
  | .none, _ => trivial
  | .last he, hd => (he.traced hd).mono fun _ hb => hb ▸ .last
  | .stopped _ _ _, _ => trivial
  | .next hne he hv hes, hd =>
    (hes.traced hd).mono fun _ hb => .later hne he (fun h => hv (Option.some.inj h).symm) hb
  | .raised hne he, _ => he.traced.mono fun _ hb => hb ▸ .here hne

theorem EvaluatesAll.traced {d f es s o s'} :
    EvaluatesAll limit d f es s o s' → Traced limit (Operand limit d f es s) o s'
  | .nil => trivial
  | .cons _ _ => trivial
  | .first he => he.traced.mono fun _ hb => hb ▸ .here
  | .later he hes => hes.traced.mono fun _ hb => .later he hb

theorem Binds.traced {d f blame items inner s o s'} :
    Binds limit d f blame items inner s o s' → InitsTraced limit d f blame items s o s'
  | .nil => .inl trivial
  | .cons h hinit hitems => hitems.traced.cons h hinit
  | .raised h hinit => .inl (hinit.traced.mono fun _ hb => hb ▸ .here h)
  | .malformed h => .malformed h

theorem Applies.traced {d e p args s o s'} :
    Applies limit d e p args s o s' → d < limit → CallTraced limit d e p args s o s'
  | .value _, _ => .inl trivial
  | .chain _, _ => .inl trivial
  | .failure h, _ => .inr ⟨_, rfl, .inl (Primitive.call_failure h), nofun⟩
  | .closure h hb, hd => .inl ((hb.traced hd).mono fun _ hb => .closure h hb)
  | .mismatch h, _ => .mismatch h
  | .uncallable h, _ => .uncallable h

end

end Raising

/-- **Every error blames the expression that raised it.**  The blamed expression is what the error says of it
(`EvalError.Fits`).  It is the expression itself or one that is evaluated within its evaluation, and there the error is
raised: all that is evaluated as a part of it comes to a value.  And whatever this evaluation is a part of, at any
distance, fails with the same error, blaming the same expression, and leaves the same store. -/
theorem errors_blame_what_raised_them (limit fuel : Nat) (f : FrameId) (e : Value) (m m' : Machine) (r : Raised)
    (h : evaluate limit fuel f e m = .error (.raised r) m') :
    r.error.Fits limit r.blame ∧
    (∃ b, Relation.ReflTransGen (Inner limit) ⟨m.depth, f, e, m.store⟩ b ∧ b.Raises limit r m'.store) ∧
    ∀ a, Relation.ReflTransGen (Inner limit) a ⟨m.depth, f, e, m.store⟩ → a.Ends limit (.error r) m'.store := by
  have hstarts : Starts limit m.depth f e m.store (.error r) m'.store := .of_raised h
  obtain ⟨_, rfl, b, hb, hraises⟩ := hstarts.traced
  refine ⟨hraises.fits, ⟨b, hb, hraises⟩, fun a ha => Onset.ends_iff.2 ?_⟩
  induction ha using Relation.ReflTransGen.head_induction_on with
  | refl => exact hstarts
  | head hab _ ih => exact hab.raised ih

/-- In `(list (car #t))` the call of `car` is to blame, and it is a call: its head names no form. -/
theorem inner_call_is_blamed :
    let form (items : List Value) : Value := items.foldr (.pair 0) .nil
    let inner := form [.sym "car", .bool true]
    let e := form [.sym "list", inner]
    let store : Store := { frames := #[{ bindings := [("car", .prim .car), ("list", .prim .list)] }] }
    let r : Raised := ⟨.operandType "car" .pair .boolean, inner⟩
    evaluate 9 9 0 e ⟨store, 0⟩ = .error (.raised r) ⟨store, 0⟩ ∧
    (∃ head operands, inner.toList? = some (head :: operands) ∧ head.NoKeyword) ∧
    ∃ b, Relation.ReflTransGen (Inner 9) ⟨0, 0, e, store⟩ b ∧ b.Raises 9 r store := by
  intro form inner e store r
  have hrun : evaluate 9 9 0 e ⟨store, 0⟩ = .error (.raised r) ⟨store, 0⟩ := by with_unfolding_all rfl
  obtain ⟨hfits, hraised, -⟩ := errors_blame_what_raised_them 9 9 0 e ⟨store, 0⟩ ⟨store, 0⟩ r hrun
  exact ⟨hrun, hfits, hraised⟩

end LispSession
