import LispSession.Proofs.Evaluation.Soundness
/-!
# Whatever is derivable is evaluated

By induction over derivations: from some fuel on, evaluation comes to the outcome and the store that were derived.  The
fuel of the premises is the only thing to be put together, so everything is stated for all sufficiently large fuel
(`Settles`, `Reaches`), and `bind` is the one place where two bounds meet.
-/
namespace LispSession

section Settling

variable {α β : Type} {limit d : Nat} {s s₁ s' : Store}

/-- With enough fuel for subexpressions, a computation comes to this outcome. -/
def Settles (limit d : Nat) (s : Store) (x : Eval → Run α) (o : Except Raised α) (s' : Store) : Prop :=
  ∃ n, ∀ fuel ≥ n, x (evaluate limit fuel) ⟨s, d⟩ = Run.ended o ⟨s', d⟩

/-- What follows a round on its level. -/
def finish (limit fuel : Nat) : Next → Run Value
  | .value v => pure v
  | .tail f e => evalRounds limit fuel f e

/-- The same of a round, the expression it goes on with included. -/
def Reaches (limit d : Nat) (s : Store) (x : Eval → Run Next) (o : Except Raised Value) (s' : Store) : Prop :=
  ∃ n, ∀ fuel ≥ n, (x (evaluate limit fuel) >>= finish limit fuel) ⟨s, d⟩ = Run.ended o ⟨s', d⟩

/-- The same of an expression on its own level. -/
def Arrives (limit d : Nat) (f : FrameId) (e : Value) (s : Store) (o : Except Raised Value) (s' : Store) : Prop :=
  ∃ n, ∀ fuel ≥ n, evalRounds limit fuel f e ⟨s, d + 1⟩ = Run.ended o ⟨s', d + 1⟩

theorem Settles.pure (a : α) : Settles limit d s (fun _ => Pure.pure a) (.ok a) s := ⟨0, fun _ _ => rfl⟩

theorem Settles.raise (error : EvalError) (blame : Value) :
    Settles (α := α) limit d s (fun _ => Run.raise error blame) (.error ⟨error, blame⟩) s := ⟨0, fun _ _ => rfl⟩

theorem Settles.bind {x : Eval → Run α} {k : Eval → α → Run β} {a : α} {o : Except Raised β}
    (hx : Settles limit d s x (.ok a) s₁) (hk : Settles limit d s₁ (fun sub => k sub a) o s') :
    Settles limit d s (fun sub => x sub >>= k sub) o s' := by
  obtain ⟨n, hn⟩ := hx
  obtain ⟨m, hm⟩ := hk
  exact ⟨max n m, fun fuel hfuel => (Run.bind_of_ok (hn fuel (by omega))).trans (hm fuel (by omega))⟩

theorem Settles.bind_error {x : Eval → Run α} {k : Eval → α → Run β} {r : Raised}
    (hx : Settles limit d s x (.error r) s₁) :
    Settles limit d s (fun sub => x sub >>= k sub) (.error r) s₁ := by
  obtain ⟨n, hn⟩ := hx
  exact ⟨n, fun fuel hfuel => Run.bind_of_error (hn fuel hfuel)⟩

theorem Reaches.value (v : Value) : Reaches limit d s (fun _ => Pure.pure (.value v)) (.ok v) s := ⟨0, fun _ _ => rfl⟩

theorem Reaches.tail {f : FrameId} {e : Value} {o : Except Raised Value} (h : Arrives limit d f e s o s') :
    Reaches limit (d + 1) s (fun _ => Pure.pure (.tail f e)) o s' := h

theorem Reaches.raise (error : EvalError) (blame : Value) :
    Reaches limit d s (fun _ => Run.raise error blame) (.error ⟨error, blame⟩) s := ⟨0, fun _ _ => rfl⟩

theorem Reaches.bind {x : Eval → Run α} {k : Eval → α → Run Next} {a : α} {o : Except Raised Value}
    (hx : Settles limit d s x (.ok a) s₁) (hk : Reaches limit d s₁ (fun sub => k sub a) o s') :
    Reaches limit d s (fun sub => x sub >>= k sub) o s' := by
  obtain ⟨n, hn⟩ := hx
  obtain ⟨m, hm⟩ := hk
  refine ⟨max n m, fun fuel hfuel => ?_⟩
  rw [bind_assoc, Run.bind_of_ok (hn fuel (by omega))]
  exact hm fuel (by omega)

theorem Reaches.bind_error {x : Eval → Run α} {k : Eval → α → Run Next} {r : Raised}
    (hx : Settles limit d s x (.error r) s₁) :
    Reaches limit d s (fun sub => x sub >>= k sub) (.error r) s₁ := by
  obtain ⟨n, hn⟩ := hx
  refine ⟨n, fun fuel hfuel => ?_⟩
  rw [bind_assoc]
  exact Run.bind_of_error (hn fuel hfuel)

theorem Settles.withStore (f : Store → α × Store) :
    Settles limit d s (fun _ => Run.withStore f) (.ok (f s).1) (f s).2 :=
  ⟨0, fun _ _ => rfl⟩

theorem Settles.get : Settles limit d s (fun _ => MonadState.get) (.ok ⟨s, d⟩) s := ⟨0, fun _ _ => rfl⟩

theorem descend_of_le {eval : Eval} {f : FrameId} {e : Value} (h : limit ≤ d) :
    descend limit eval f e ⟨s, d⟩ = Run.ended (.error ⟨.recursionLimit limit, e⟩) ⟨s, d⟩ := if_pos h

theorem descend_of_lt {eval : Eval} {f : FrameId} {e : Value} {o : Except Raised Value} (h : d < limit)
    (he : eval f e ⟨s, d + 1⟩ = Run.ended o ⟨s', d + 1⟩) : descend limit eval f e ⟨s, d⟩ = Run.ended o ⟨s', d⟩ := by
  refine (if_neg (Nat.not_le.2 h)).trans ?_
  dsimp only
  rw [he]
  cases o <;> rfl

theorem evalRounds_succ (limit fuel : Nat) (f : FrameId) (e : Value) (m : Machine) :
    evalRounds limit (fuel + 1) f e m = (evalRound (evaluate limit fuel) f e >>= finish limit fuel) m := by
  rw [evalRounds, ← evaluate]
  rcases h : evalRound (evaluate limit fuel) f e m with ⟨_ | _, m'⟩ | ⟨halt, m'⟩
  · rw [Run.bind_of_ok h]; rfl
  · rw [Run.bind_of_ok h]; rfl
  · rw [Run.bind_of_error h]

theorem Reaches.arrives {f : FrameId} {e : Value} {o : Except Raised Value}
    (h : Reaches limit (d + 1) s (fun sub => evalRound sub f e) o s') : Arrives limit d f e s o s' := by
  obtain ⟨n, hn⟩ := h
  refine ⟨n + 1, fun fuel hfuel => ?_⟩
  obtain ⟨fuel, rfl⟩ : ∃ k, fuel = k + 1 := ⟨fuel - 1, by omega⟩
  rw [evalRounds_succ]
  exact hn fuel (by omega)

end Settling

/-! ## What a round makes of the shape of an expression -/

theorem evalRound_special {e : Value} {operands : List Value} (form : SpecialForm)
    (h : e.toList? = some (.sym form.name :: operands)) :
    ∃ l rest, e = .pair l (.sym form.name) rest ∧ rest.toList? = some operands ∧
      ∀ sub f, evalRound sub f e = evalSpecial sub f e form rest operands := by
  obtain ⟨l, rest, rfl, hrest⟩ := Value.toList?_eq_cons h
  refine ⟨l, rest, rfl, hrest, fun sub f => ?_⟩
  have hform : headForm? (.sym form.name) = some form := SpecialForm.ofName?_name form
  simp only [evalRound, hrest, hform]

theorem evalRound_call {e head : Value} {operands : List Value} (h : e.toList? = some (head :: operands))
    (hk : head.NoKeyword) (sub : Eval) (f : FrameId) :
    evalRound sub f e = (do
      let procedure ← sub f head
      let args ← operands.mapM (sub f)
      applyProcedure sub e procedure args) := by
  obtain ⟨l, rest, rfl, hrest⟩ := Value.toList?_eq_cons h
  have hform : headForm? head = none := by
    cases hform : headForm? head with
    | none => rfl
    | some form => exact absurd (Value.eq_of_headForm? hform) (hk form)
  simp only [evalRound, hrest, hform]

/-! ### Forms of the wrong shape

Here nothing is evaluated at all. -/

section Malformed

variable {sub : Eval} {f : FrameId} {e rest : Value} {operands : List Value}

theorem evalQuote_malformed (hn : operands.length ≠ 1) :
    evalSpecial sub f e .quote rest operands = Run.raise (.malformed .quoteOperands) e := by
  unfold evalSpecial
  dsimp only
  split
  · exact absurd rfl hn
  · rfl

theorem evalCond_malformed (hn : operands.length ≠ 2 ∧ operands.length ≠ 3) :
    evalSpecial sub f e .cond rest operands = Run.raise (.malformed .condOperands) e := by
  unfold evalSpecial
  dsimp only
  split
  · exact absurd rfl hn.1
  · exact absurd rfl hn.2
  · rfl

theorem evalDefine_malformed (hvalue : ∀ name value, operands ≠ [.sym name, value])
    (hprocedure : ∀ l target params body, operands ≠ .pair l target params :: body) :
    evalSpecial sub f e .define rest operands = Run.raise (.malformed .defineOperands) e := by
  unfold evalSpecial
  dsimp only
  split
  · exact absurd rfl (hvalue _ _)
  · exact absurd rfl (hprocedure _ _ _ _)
  · rfl

theorem evalDefine_nameless {l l₁ : Label} {target params body : Value} {exprs : List Value}
    (ht : target.kind ≠ .symbol) :
    evalSpecial sub f e .define (.pair l₁ (.pair l target params) body) (.pair l target params :: exprs) =
      Run.raise (.malformed .defineName) e := by
  cases target with
  | sym name => exact absurd rfl ht
  | _ => rfl

theorem evalAssign_malformed (hn : ∀ name value, operands ≠ [.sym name, value]) :
    evalSpecial sub f e .assign rest operands = Run.raise (.malformed .assignOperands) e := by
  unfold evalSpecial
  dsimp only
  split
  · exact absurd rfl (hn _ _)
  · rfl

theorem evalLambda_malformed (hrest : rest.toList? = some []) :
    evalSpecial sub f e .lambda rest [] = Run.raise (.malformed .lambdaOperands) e := by
  cases rest with
  | pair l₁ car cdr =>
    rw [Value.toList?_pair] at hrest
    obtain ⟨items, -, hcons⟩ := Option.map_eq_some_iff.1 hrest
    cases hcons
  | _ => rfl

theorem evalBinding_malformed (hn : operands.head?.bind Value.toList? = none) :
    evalSpecial sub f e .binding rest operands = Run.raise (.malformed .bindingList) e := by
  unfold evalSpecial
  dsimp only
  split
  · rfl
  · next bindings body =>
    have hitems : bindings.toList? = none := hn
    rw [hitems]

end Malformed

section Rules

variable {limit d : Nat} {f : FrameId} {e : Value} {s s' : Store} {o : Except Raised Value}

theorem Arrives.special {operands : List Value} (form : SpecialForm) (h : e.toList? = some (.sym form.name :: operands))
    (hx : ∀ l rest, e = .pair l (.sym form.name) rest →
      Reaches limit (d + 1) s (fun sub => evalSpecial sub f e form rest operands) o s') :
      Arrives limit d f e s o s' := by
  obtain ⟨l, rest, he, -, hround⟩ := evalRound_special form h
  refine Reaches.arrives ?_
  simp only [hround]
  exact hx l rest he

theorem Arrives.malformed {operands : List Value} (form : SpecialForm) (what : Malformation)
    (h : e.toList? = some (.sym form.name :: operands))
    (hx : ∀ rest sub, evalSpecial sub f e form rest operands = Run.raise (.malformed what) e) :
    Arrives limit d f e s (.error ⟨.malformed what, e⟩) s := by
  refine Arrives.special form h fun l rest _ => ?_
  simp only [hx]
  exact .raise _ _

theorem Arrives.itself (hsym : e.kind ≠ .symbol) (hpair : e.kind ≠ .pair) : Arrives limit d f e s (.ok e) s := by
  refine Reaches.arrives ?_
  cases e with
  | sym name => exact absurd rfl hsym
  | pair l car cdr => exact absurd rfl hpair
  | _ => exact .value _

theorem Arrives.improper (hpair : e.kind = .pair) (h : e.toList? = none) :
    Arrives limit d f e s (.error ⟨.improperList, e⟩) s := by
  refine Reaches.arrives ?_
  cases e with
  | pair l head rest =>
    rw [Value.toList?_pair, Option.map_eq_none_iff] at h
    simp only [evalRound, h]
    exact .raise _ _
  | _ => cases hpair

/-! ## The evaluator obeys the rules

One lemma per rule that has premises to be evaluated: the conclusion of the rule, read as a statement about the
evaluator, follows from its premises read in the same way. -/

theorem Settles.closes {name : Option String} {params body blame : Value} :
    Closes name params body f blame s o s' → Settles limit d s (fun _ => makeClosure name params body f blame) o s'
  | @Closes.made _ _ _ _ _ _ ps hbody hparams => by
    have hcheck : Parameters.check params body = .ok ps := by
      rw [Parameters.check, if_neg (by simpa using hbody), hparams]
    simp only [makeClosure, hcheck]
    exact .bind (.withStore _) (.pure _)
  | .noBody hbody => by
    have hcheck : Parameters.check params body = .error .lambdaBody := by rw [Parameters.check, hbody]; rfl
    simp only [makeClosure, hcheck]
    exact .raise _ _
  | .badParameters hbody hparams => by
    have hcheck : Parameters.check params body = .error .lambdaParameters := by
      rw [Parameters.check, if_neg (by simpa using hbody), hparams]
    simp only [makeClosure, hcheck]
    exact .raise _ _

namespace Arrives

variable {s₁ s₂ : Store} {v : Value} {r : Raised} {operands : List Value}

theorem starts (h : d < limit) (he : Arrives limit d f e s o s') : Settles limit d s (fun sub => sub f e) o s' := by
  obtain ⟨n, hn⟩ := he
  exact ⟨n, fun fuel hfuel => descend_of_lt h (hn fuel hfuel)⟩

theorem lookup {name : String} (h : s.lookup f name = some v) : Arrives limit d f (.sym name) s (.ok v) s := by
  refine Reaches.arrives (.bind .get ?_)
  simp only [h]
  exact .value v

theorem unbound {name : String} (h : s.lookup f name = none) :
    Arrives limit d f (.sym name) s (.error ⟨.undefinedVariable name, .sym name⟩) s := by
  refine Reaches.arrives (.bind .get ?_)
  simp only [h]
  exact .raise _ _

theorem quoteMalformed (h : e.toList? = some (.sym "quote" :: operands)) (hn : operands.length ≠ 1) :
    Arrives limit d f e s (.error ⟨.malformed .quoteOperands, e⟩) s :=
  .malformed .quote _ h fun _ _ => evalQuote_malformed hn

section Cond

variable {test consequent : Value} {alternative : List Value}

theorem condTrue (h : e.toList? = some (.sym "if" :: test :: consequent :: alternative)) (hn : alternative.length ≤ 1)
    (htest : Settles limit (d + 1) s (fun sub => sub f test) (.ok v) s₁) (hv : v.isTruthy = true)
    (hc : Arrives limit d f consequent s₁ o s') : Arrives limit d f e s o s' := by
  refine .special .cond h fun _ rest _ => ?_
  match alternative, hn with
  | [], _ =>
    refine .bind htest ?_
    simp only [hv, ↓reduceIte]
    exact .tail hc
  | [_], _ =>
    refine .bind htest ?_
    simp only [hv, ↓reduceIte]
    exact .tail hc

theorem condFalse {alternative : Value} (h : e.toList? = some [.sym "if", test, consequent, alternative])
    (htest : Settles limit (d + 1) s (fun sub => sub f test) (.ok v) s₁) (hv : v.isTruthy = false)
    (ha : Arrives limit d f alternative s₁ o s') : Arrives limit d f e s o s' := by
  refine .special .cond h fun _ _ _ => .bind htest ?_
  simp only [hv, Bool.false_eq_true, ↓reduceIte]
  exact .tail ha

theorem condNothing (h : e.toList? = some [.sym "if", test, consequent])
    (htest : Settles limit (d + 1) s (fun sub => sub f test) (.ok v) s₁) (hv : v.isTruthy = false) :
    Arrives limit d f e s (.ok .nil) s₁ := by
  refine .special .cond h fun _ _ _ => .bind htest ?_
  simp only [hv, Bool.false_eq_true, ↓reduceIte]
  exact .tail (.itself nofun nofun)

theorem condRaised (h : e.toList? = some (.sym "if" :: test :: consequent :: alternative)) (hn : alternative.length ≤ 1)
    (htest : Settles limit (d + 1) s (fun sub => sub f test) (.error r) s₁) : Arrives limit d f e s (.error r) s₁ := by
  refine .special .cond h fun _ rest _ => ?_
  match alternative, hn with
  | [], _ => exact .bind_error htest
  | [_], _ => exact .bind_error htest

theorem condMalformed (h : e.toList? = some (.sym "if" :: operands)) (hn : operands.length ≠ 2 ∧ operands.length ≠ 3) :
    Arrives limit d f e s (.error ⟨.malformed .condOperands, e⟩) s :=
  .malformed .cond _ h fun _ _ => evalCond_malformed hn

end Cond

section Define

variable {name : String} {value : Value}

theorem define (h : e.toList? = some [.sym "define", .sym name, value])
    (hvalue : Settles limit (d + 1) s (fun sub => sub f value) (.ok v) s₁) :
    Arrives limit d f e s (.ok (.sym name)) (s₁.define f name v) :=
  .special .define h fun _ _ _ => .bind hvalue (.bind (.withStore _) (.value _))

theorem defineRaised (h : e.toList? = some [.sym "define", .sym name, value])
    (hvalue : Settles limit (d + 1) s (fun sub => sub f value) (.error r) s₁) : Arrives limit d f e s (.error r) s₁ :=
  .special .define h fun _ _ _ => .bind_error hvalue

theorem defineMalformed (h : e.toList? = some (.sym "define" :: operands))
    (hvalue : ∀ name value, operands ≠ [.sym name, value])
    (hprocedure : ∀ l target params body, operands ≠ .pair l target params :: body) :
    Arrives limit d f e s (.error ⟨.malformed .defineOperands, e⟩) s :=
  .malformed .define _ h fun _ _ => evalDefine_malformed hvalue hprocedure

variable {l l₁ l₂ : Label} {params body : Value} {exprs : List Value}

theorem defineProcedure (hbody : body.toList? = some exprs)
    (hc : Closes (some name) params body f (.pair l (.sym "define") (.pair l₁ (.pair l₂ (.sym name) params) body)) s
      (.ok v) s₁) :
    Arrives limit d f (.pair l (.sym "define") (.pair l₁ (.pair l₂ (.sym name) params) body)) s
      (.ok (.sym name)) (s₁.define f name v) := by
  refine .special .define (by rw [Value.toList?_pair, Value.toList?_pair, hbody]; rfl) fun _ rest heq => ?_
  cases heq
  exact .bind (.closes hc) (.bind (.withStore _) (.value _))

theorem defineProcedureMalformed (hbody : body.toList? = some exprs)
    (hc : Closes (some name) params body f (.pair l (.sym "define") (.pair l₁ (.pair l₂ (.sym name) params) body)) s
      (.error r) s₁) :
    Arrives limit d f (.pair l (.sym "define") (.pair l₁ (.pair l₂ (.sym name) params) body)) s (.error r) s₁ := by
  refine .special .define (by rw [Value.toList?_pair, Value.toList?_pair, hbody]; rfl) fun _ rest heq => ?_
  cases heq
  exact .bind_error (.closes hc)

theorem defineNameless {target : Value} (h : e.toList? = some (.sym "define" :: .pair l target params :: exprs))
    (ht : target.kind ≠ .symbol) : Arrives limit d f e s (.error ⟨.malformed .defineName, e⟩) s := by
  obtain ⟨l₀, rest, rfl, hrest⟩ := Value.toList?_eq_cons h
  obtain ⟨l₁, body, rfl, -⟩ := Value.toList?_eq_cons hrest
  refine .special .define h fun _ rest heq => ?_
  cases heq
  simp only [evalDefine_nameless ht]
  exact .raise _ _

end Define

section Assign

variable {name : String} {value : Value}

theorem assign (h : e.toList? = some [.sym "set!", .sym name, value])
    (hvalue : Settles limit (d + 1) s (fun sub => sub f value) (.ok v) s₁) (ha : s₁.assign f name v = some s₂) :
    Arrives limit d f e s (.ok v) s₂ := by
  obtain ⟨⟨owner, w⟩, hr, rfl⟩ := Option.map_eq_some_iff.1 ha
  refine .special .assign h fun _ _ _ => .bind hvalue (.bind .get ?_)
  simp only [hr]
  exact .bind (.withStore _) (.value _)

theorem assignUnbound (h : e.toList? = some [.sym "set!", .sym name, value])
    (hvalue : Settles limit (d + 1) s (fun sub => sub f value) (.ok v) s₁) (ha : s₁.assign f name v = none) :
    Arrives limit d f e s (.error ⟨.undefinedAssignment name, e⟩) s₁ := by
  have hr := Option.map_eq_none_iff.1 ha
  refine .special .assign h fun _ _ _ => .bind hvalue (.bind .get ?_)
  simp only [hr]
  exact .raise _ _

theorem assignRaised (h : e.toList? = some [.sym "set!", .sym name, value])
    (hvalue : Settles limit (d + 1) s (fun sub => sub f value) (.error r) s₁) : Arrives limit d f e s (.error r) s₁ :=
  .special .assign h fun _ _ _ => .bind_error hvalue

theorem assignMalformed (h : e.toList? = some (.sym "set!" :: operands))
    (hn : ∀ name value, operands ≠ [.sym name, value]) :
    Arrives limit d f e s (.error ⟨.malformed .assignOperands, e⟩) s :=
  .malformed .assign _ h fun _ _ => evalAssign_malformed hn

end Assign

theorem lambda {l l₁ : Label} {params body : Value} {exprs : List Value} (hbody : body.toList? = some exprs)
    (hc : Closes none params body f (.pair l (.sym "lambda") (.pair l₁ params body)) s o s') :
    Arrives limit d f (.pair l (.sym "lambda") (.pair l₁ params body)) s o s' := by
  refine .special .lambda (by rw [Value.toList?_pair, Value.toList?_pair, hbody]; rfl) fun _ rest heq => ?_
  cases heq
  cases o with
  | ok v => exact .bind (.closes hc) (.value v)
  | error r => exact .bind_error (.closes hc)

theorem lambdaMalformed (h : e.toList? = some [.sym "lambda"]) :
    Arrives limit d f e s (.error ⟨.malformed .lambdaOperands, e⟩) s := by
  obtain ⟨l, rest, rfl, hrest⟩ := Value.toList?_eq_cons h
  refine .special .lambda h fun _ rest heq => ?_
  cases heq
  simp only [evalLambda_malformed hrest]
  exact .raise _ _

section Binding

variable {bindings : Value} {items body : List Value} {inner : Frame}

theorem binding (h : e.toList? = some (.sym "let" :: bindings :: body)) (hitems : bindings.toList? = some items)
    (hbind : Settles limit (d + 1) s (fun sub => evalBindings sub f e { parent := some f } items) (.ok inner) s₁)
    (hne : body ≠ [])
    (hb : Reaches limit (d + 1) (s₁.addFrame inner).2 (fun sub => evalBody sub (s₁.addFrame inner).1 body) o s') :
    Arrives limit d f e s o s' := by
  refine .special .binding h fun _ rest _ => ?_
  simp only [evalSpecial, hitems]
  refine .bind hbind ?_
  simp only [List.isEmpty_iff, hne, ↓reduceIte]
  exact .bind (.withStore _) hb

theorem bindingRaised (h : e.toList? = some (.sym "let" :: bindings :: body)) (hitems : bindings.toList? = some items)
    (hbind : Settles limit (d + 1) s (fun sub => evalBindings sub f e { parent := some f } items) (.error r) s₁) :
    Arrives limit d f e s (.error r) s₁ := by
  refine .special .binding h fun _ rest _ => ?_
  simp only [evalSpecial, hitems]
  exact .bind_error hbind

theorem bindingNoBody (h : e.toList? = some [.sym "let", bindings]) (hitems : bindings.toList? = some items)
    (hbind : Settles limit (d + 1) s (fun sub => evalBindings sub f e { parent := some f } items) (.ok inner) s₁) :
    Arrives limit d f e s (.error ⟨.malformed .bindingBody, e⟩) s₁ := by
  refine .special .binding h fun _ rest _ => ?_
  simp only [evalSpecial, hitems]
  exact .bind hbind (.raise _ _)

theorem bindingMalformed (h : e.toList? = some (.sym "let" :: operands))
    (hn : operands.head?.bind Value.toList? = none) :
    Arrives limit d f e s (.error ⟨.malformed .bindingList, e⟩) s :=
  .malformed .binding _ h fun _ _ => evalBinding_malformed hn

end Binding

section Call

variable {head p : Value} {args : List Value}

theorem call (h : e.toList? = some (head :: operands)) (hk : head.NoKeyword)
    (hhead : Settles limit (d + 1) s (fun sub => sub f head) (.ok p) s₁)
    (hargs : Settles limit (d + 1) s₁ (fun sub => operands.mapM (sub f)) (.ok args) s₂)
    (ha : Reaches limit (d + 1) s₂ (fun sub => applyProcedure sub e p args) o s') : Arrives limit d f e s o s' := by
  refine Reaches.arrives ?_
  simp only [evalRound_call h hk]
  exact .bind hhead (.bind hargs ha)

theorem headRaised (h : e.toList? = some (head :: operands)) (hk : head.NoKeyword)
    (hhead : Settles limit (d + 1) s (fun sub => sub f head) (.error r) s₁) : Arrives limit d f e s (.error r) s₁ := by
  refine Reaches.arrives ?_
  simp only [evalRound_call h hk]
  exact .bind_error hhead

theorem argsRaised (h : e.toList? = some (head :: operands)) (hk : head.NoKeyword)
    (hhead : Settles limit (d + 1) s (fun sub => sub f head) (.ok p) s₁)
    (hargs : Settles limit (d + 1) s₁ (fun sub => operands.mapM (sub f)) (.error r) s₂) :
    Arrives limit d f e s (.error r) s₂ := by
  refine Reaches.arrives ?_
  simp only [evalRound_call h hk]
  exact .bind hhead (.bind_error hargs)

end Call

end Arrives

section Rows

variable {s₁ : Store} {v : Value} {r : Raised} {es : List Value}

theorem Reaches.bodyNext (hne : es ≠ []) (he : Settles limit (d + 1) s (fun sub => sub f e) (.ok v) s₁)
    (hes : Reaches limit (d + 1) s₁ (fun sub => evalBody sub f es) o s') :
    Reaches limit (d + 1) s (fun sub => evalBody sub f (e :: es)) o s' := by
  cases es with
  | nil => exact absurd rfl hne
  | cons e' es => exact .bind he hes

theorem Reaches.bodyRaised (hne : es ≠ []) (he : Settles limit (d + 1) s (fun sub => sub f e) (.error r) s₁) :
    Reaches limit (d + 1) s (fun sub => evalBody sub f (e :: es)) (.error r) s₁ := by
  cases es with
  | nil => exact absurd rfl hne
  | cons e' es => exact .bind_error he

variable {stop : Bool}

theorem Reaches.untilStopped (hne : es ≠ []) (he : Settles limit (d + 1) s (fun sub => sub f e) (.ok v) s₁)
    (hv : v.isTruthy = stop) : Reaches limit (d + 1) s (fun sub => evalUntil sub stop f (e :: es)) (.ok v) s₁ := by
  cases es with
  | nil => exact absurd rfl hne
  | cons e' es =>
    refine .bind he ?_
    simp only [hv, BEq.rfl, ↓reduceIte]
    exact .value v

theorem Reaches.untilNext (hne : es ≠ []) (he : Settles limit (d + 1) s (fun sub => sub f e) (.ok v) s₁)
    (hv : v.isTruthy ≠ stop) (hes : Reaches limit (d + 1) s₁ (fun sub => evalUntil sub stop f es) o s') :
    Reaches limit (d + 1) s (fun sub => evalUntil sub stop f (e :: es)) o s' := by
  cases es with
  | nil => exact absurd rfl hne
  | cons e' es =>
    refine .bind he ?_
    simp only [beq_eq_false_iff_ne.2 hv, Bool.false_eq_true, ↓reduceIte]
    exact hes

theorem Reaches.untilRaised (hne : es ≠ []) (he : Settles limit (d + 1) s (fun sub => sub f e) (.error r) s₁) :
    Reaches limit (d + 1) s (fun sub => evalUntil sub stop f (e :: es)) (.error r) s₁ := by
  cases es with
  | nil => exact absurd rfl hne
  | cons e' es => exact .bind_error he

theorem Settles.allCons {vs : List Value} (he : Settles limit (d + 1) s (fun sub => sub f e) (.ok v) s₁)
    (hes : Settles limit (d + 1) s₁ (fun sub => es.mapM (sub f)) (.ok vs) s') :
    Settles limit (d + 1) s (fun sub => (e :: es).mapM (sub f)) (.ok (v :: vs)) s' := by
  simp only [List.mapM_cons]
  exact .bind he (.bind hes (.pure _))

theorem Settles.allFirst (he : Settles limit (d + 1) s (fun sub => sub f e) (.error r) s₁) :
    Settles limit (d + 1) s (fun sub => (e :: es).mapM (sub f)) (.error r) s₁ := by
  simp only [List.mapM_cons]
  exact .bind_error he

theorem Settles.allLater (he : Settles limit (d + 1) s (fun sub => sub f e) (.ok v) s₁)
    (hes : Settles limit (d + 1) s₁ (fun sub => es.mapM (sub f)) (.error r) s') :
    Settles limit (d + 1) s (fun sub => (e :: es).mapM (sub f)) (.error r) s' := by
  simp only [List.mapM_cons]
  exact .bind he (.bind_error hes)

variable {blame item init : Value} {items : List Value} {name : String} {inner : Frame}

theorem Settles.bindingsCons {o : Except Raised Frame} (h : item.toList? = some [.sym name, init])
    (hinit : Settles limit (d + 1) s (fun sub => sub f init) (.ok v) s₁)
    (hitems : Settles limit (d + 1) s₁ (fun sub => evalBindings sub f blame (inner.define name v) items) o s') :
    Settles limit (d + 1) s (fun sub => evalBindings sub f blame inner (item :: items)) o s' := by
  simp only [evalBindings, h]
  exact .bind hinit hitems

theorem Settles.bindingsRaised (h : item.toList? = some [.sym name, init])
    (hinit : Settles limit (d + 1) s (fun sub => sub f init) (.error r) s₁) :
    Settles limit (d + 1) s (fun sub => evalBindings sub f blame inner (item :: items)) (.error r) s₁ := by
  simp only [evalBindings, h]
  exact .bind_error hinit

theorem Settles.bindingsMalformed (h : ∀ name init, item.toList? ≠ some [.sym name, init]) :
    Settles limit (d + 1) s (fun sub => evalBindings sub f blame inner (item :: items))
      (.error ⟨.malformed .bindingList, blame⟩) s := by
  have hraise (sub : Eval) : evalBindings sub f blame inner (item :: items) =
      Run.raise (.malformed .bindingList) blame := by
    rw [evalBindings]
    split
    · next name init heq => exact absurd heq (h name init)
    · rfl
  simp only [hraise]
  exact .raise _ _

end Rows

section Applying

variable {p : Primitive} {args : List Value}

theorem Reaches.primValue {v : Value} (h : p.call args = .value v) :
    Reaches limit (d + 1) s (fun sub => applyProcedure sub e (.prim p) args) (.ok v) s := by
  simp only [applyProcedure, h]
  exact .value v

theorem Reaches.primChain {items : List Value} {tail : Value} (h : p.call args = .chain items tail) :
    Reaches limit (d + 1) s (fun sub => applyProcedure sub e (.prim p) args)
      (.ok (s.chain items tail).1) (s.chain items tail).2 := by
  simp only [applyProcedure, h]
  exact .bind (.withStore _) (.value _)

theorem Reaches.primFailure {error : EvalError} (h : p.call args = .failure error) :
    Reaches limit (d + 1) s (fun sub => applyProcedure sub e (.prim p) args) (.error ⟨error, e⟩) s := by
  simp only [applyProcedure, h]
  exact .raise _ _

variable {l : Label} {name : Option String} {ps : Parameters} {body : Value}

theorem Reaches.closure (h : ps.arity.accepts args.length = true)
    (hb : Reaches limit (d + 1) (s.bind ps args f).2
      (fun sub => evalBody sub (s.bind ps args f).1 body.elements) o s') :
    Reaches limit (d + 1) s (fun sub => applyProcedure sub e (.closure l name ps body f) args) o s' := by
  simp only [applyProcedure, Parameters.mismatch?, h, ↓reduceIte]
  exact .bind (.withStore _) hb

theorem Reaches.mismatch (h : ps.arity.accepts args.length = false) :
    Reaches limit (d + 1) s (fun sub => applyProcedure sub e (.closure l name ps body f) args)
      (.error ⟨.unexpectedArity (name.getD "lambda") ps.arity args.length, e⟩) s := by
  simp only [applyProcedure, Parameters.mismatch?, h, Bool.false_eq_true, ↓reduceIte]
  exact .raise _ _

theorem Reaches.uncallable {p : Value} (h : p.kind ≠ .procedure) :
    Reaches limit (d + 1) s (fun sub => applyProcedure sub e p args) (.error ⟨.uncallable p.kind, e⟩) s := by
  cases p with
  | prim p => exact absurd rfl h
  | closure l name ps body f => exact absurd rfl h
  | _ => exact .raise _ _

end Applying

end Rules

/-! ## The induction over derivations -/

section Derivations

variable {limit : Nat}

mutual

/-- **Whatever is derivable is evaluated**, by induction over the derivation.  Each of the relations has something of
its own to say of the evaluator, and each of its rules is one of the rules above. -/
theorem Starts.settles {d f e s o s'} :
    Starts limit d f e s o s' → Settles limit d s (fun sub => sub f e) o s'
  | .tooDeep h => ⟨0, fun _ _ => descend_of_le h⟩
  | .within h he => he.arrives.starts h

theorem Evaluates.arrives {d f e s o s'} :
    Evaluates limit d f e s o s' → Arrives limit d f e s o s'
  | .itself hsym hpair => .itself hsym hpair
  | .variable h => .lookup h
  | .unbound h => .unbound h
  | .improper hpair h => .improper hpair h
  | .quote h => .special .quote h fun _ _ _ => .value _
  | .quoteMalformed h hn => .quoteMalformed h hn
  | .condTrue h hn htest hv hc => .condTrue h hn htest.settles hv hc.arrives
  | .condFalse h htest hv ha => .condFalse h htest.settles hv ha.arrives
  | .condNothing h htest hv => .condNothing h htest.settles hv
  | .condRaised h hn htest => .condRaised h hn htest.settles
  | .condMalformed h hn => .condMalformed h hn
  | .define h hvalue => .define h hvalue.settles
  | .defineRaised h hvalue => .defineRaised h hvalue.settles
  | .defineProcedure hbody hc => .defineProcedure hbody hc
  | .defineProcedureMalformed hbody hc => .defineProcedureMalformed hbody hc
  | .defineNameless h ht => .defineNameless h ht
  | .defineMalformed h hvalue hprocedure => .defineMalformed h hvalue hprocedure
  | .assign h hvalue ha => .assign h hvalue.settles ha
  | .assignUnbound h hvalue ha => .assignUnbound h hvalue.settles ha
  | .assignRaised h hvalue => .assignRaised h hvalue.settles
  | .assignMalformed h hn => .assignMalformed h hn
  | .lambda hbody hc => .lambda hbody hc
  | .lambdaMalformed h => .lambdaMalformed h
  | .sequence h hb => .special .sequence h fun _ _ _ => hb.reaches
  | .binding h hitems hbind hne hb => .binding h hitems hbind.settles hne hb.reaches
  | .bindingRaised h hitems hbind => .bindingRaised h hitems hbind.settles
  | .bindingNoBody h hitems hbind => .bindingNoBody h hitems hbind.settles
  | .bindingMalformed h hn => .bindingMalformed h hn
  | .conjunction h hu => .special .conjunction h fun _ _ _ => hu.reaches
  | .disjunction h hu => .special .disjunction h fun _ _ _ => hu.reaches
  | .call h hk hhead hargs ha => .call h hk hhead.settles hargs.settles ha.reaches
  | .headRaised h hk hhead => .headRaised h hk hhead.settles
  | .argsRaised h hk hhead hargs => .argsRaised h hk hhead.settles hargs.settles

theorem RunsBody.reaches {d f es s o s'} :
    RunsBody limit d f es s o s' → Reaches limit (d + 1) s (fun sub => evalBody sub f es) o s'
  | .none => .value .nil
  | .last he => .tail he.arrives
  | .next hne he hes => .bodyNext hne he.settles hes.reaches
  | .raised hne he => .bodyRaised hne he.settles

theorem RunsUntil.reaches {stop d f es s o s'} :
    RunsUntil limit stop d f es s o s' → Reaches limit (d + 1) s (fun sub => evalUntil sub stop f es) o s'
  | .none => .value _
  | .last he => .tail he.arrives
  | .stopped hne he hv => .untilStopped hne he.settles hv
  | .next hne he hv hes => .untilNext hne he.settles hv hes.reaches
  | .raised hne he => .untilRaised hne he.settles

theorem EvaluatesAll.settles {d f es s o s'} :
    EvaluatesAll limit d f es s o s' → Settles limit (d + 1) s (fun sub => es.mapM (sub f)) o s'
  | .nil => .pure []
  | .cons he hes => .allCons he.settles hes.settles
  | .first he => .allFirst he.settles
  | .later he hes => .allLater he.settles hes.settles

theorem Binds.settles {d f blame items inner s o s'} :
    Binds limit d f blame items inner s o s' →
      Settles limit (d + 1) s (fun sub => evalBindings sub f blame inner items) o s'
  | .nil => .pure _
  | .cons h hinit hitems => .bindingsCons h hinit.settles hitems.settles
  | .raised h hinit => .bindingsRaised h hinit.settles
  | .malformed h => .bindingsMalformed h

theorem Applies.reaches {d e p args s o s'} :
    Applies limit d e p args s o s' → Reaches limit (d + 1) s (fun sub => applyProcedure sub e p args) o s'
  | .value h => .primValue h
  | .chain h => .primChain h
  | .failure h => .primFailure h
  | .closure h hb => .closure h hb.reaches
  | .mismatch h => .mismatch h
  | .uncallable h => .uncallable h

end

end Derivations

theorem Run.ended_inj {α : Type} {o o' : Except Raised α} {m m' : Machine} (h : Run.ended o m = Run.ended o' m') :
    o = o' ∧ m = m' := by
  cases o <;> cases o' <;> cases h <;> exact ⟨rfl, rfl⟩

/-- What evaluation comes to with any fuel is derivable. -/
theorem Starts.of_ended {limit fuel d : Nat} {f : FrameId} {e : Value} {s s' : Store} {o : Except Raised Value}
    (h : evaluate limit fuel f e ⟨s, d⟩ = Run.ended o ⟨s', d⟩) : Starts limit d f e s o s' := by
  obtain ⟨m, hm⟩ | ⟨o', s'', hx, ho⟩ := evaluate_yields limit fuel d f e s
  · rw [hm] at h
    cases o <;> cases h
  · obtain ⟨rfl, hm⟩ := Run.ended_inj (h.symm.trans hx)
    cases hm
    exact ho

theorem Starts.exists_fuel {limit d : Nat} {f : FrameId} {e : Value} {s s' : Store} {o : Except Raised Value}
    (h : Starts limit d f e s o s') : ∃ fuel, evaluate limit fuel f e ⟨s, d⟩ = Run.ended o ⟨s', d⟩ := by
  obtain ⟨n, hn⟩ := h.settles
  exact ⟨n, hn n (Nat.le_refl n)⟩

/-- Evaluation has one outcome and leaves one store. -/
theorem Starts.unique {limit d : Nat} {f : FrameId} {e : Value} {s s₁ s₂ : Store} {o₁ o₂ : Except Raised Value}
    (h₁ : Starts limit d f e s o₁ s₁) (h₂ : Starts limit d f e s o₂ s₂) : o₁ = o₂ ∧ s₁ = s₂ := by
  obtain ⟨n₁, hn₁⟩ := h₁.settles
  obtain ⟨n₂, hn₂⟩ := h₂.settles
  obtain ⟨ho, hm⟩ :=
    Run.ended_inj ((hn₁ (max n₁ n₂) (Nat.le_max_left ..)).symm.trans (hn₂ (max n₁ n₂) (Nat.le_max_right ..)))
  cases hm
  exact ⟨ho, rfl⟩

/-- **Evaluation is the big-step semantics.**  With some fuel it comes to an outcome and a store, on the level it began
on, exactly if these are derivable from that level, and then it does so from some fuel on.  With less it only ever fails
to finish. -/
theorem evaluate_iff_derivable (limit d : Nat) (f : FrameId) (e : Value) (s s' : Store) (o : Except Raised Value) :
    ((∃ fuel, evaluate limit fuel f e ⟨s, d⟩ = Run.ended o ⟨s', d⟩) ↔ Starts limit d f e s o s') ∧
    ((∃ n, ∀ fuel ≥ n, evaluate limit fuel f e ⟨s, d⟩ = Run.ended o ⟨s', d⟩) ↔ Starts limit d f e s o s') ∧
    ∀ fuel, (∃ m, evaluate limit fuel f e ⟨s, d⟩ = .error .unfinished m) ∨
      ∃ o s', evaluate limit fuel f e ⟨s, d⟩ = Run.ended o ⟨s', d⟩ := by
  refine ⟨⟨fun ⟨_, hfuel⟩ => .of_ended hfuel, fun h => h.exists_fuel⟩,
    ⟨fun ⟨n, hn⟩ => .of_ended (hn n (Nat.le_refl n)), fun h => h.settles⟩,
    fun fuel => ?_⟩
  obtain hm | ⟨o, s', hx, -⟩ := evaluate_yields limit fuel d f e s
  · exact .inl hm
  · exact .inr ⟨o, s', hx⟩

end LispSession
