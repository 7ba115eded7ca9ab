import LispSession.Proofs.Evaluation.BigStep
import LispSession.Proofs.Evaluation.Primitives
/-!
# Whatever evaluation comes to is derivable

For every fuel: a computation that does not run out of it comes back to the level it began on, with an outcome that the
rules derive (`evaluate_yields`).  `Yields` says this of one result and is passed along the binds of the evaluator; a
round of evaluation owes a derivation only once the expression it goes on with has one (`Leads`).
-/
namespace LispSession

namespace Run

variable {α β : Type} {x : Run α} {k : α → Run β} {m m' : Machine}

theorem bind_of_ok {a : α} (h : x m = .ok a m') : (x >>= k) m = k a m' := by
  show EStateM.bind x k m = _
  unfold EStateM.bind
  rw [h]

theorem bind_of_error {halt : Halt} (h : x m = .error halt m') : (x >>= k) m = .error halt m' := by
  show EStateM.bind x k m = _
  unfold EStateM.bind
  rw [h]

/-- The result of a computation that ran to its end. -/
def ended : Except Raised α → Machine → EStateM.Result Halt Machine α
  | .ok a, m => .ok a m
  | .error r, m => .error (.raised r) m

end Run

/-- From level `d`: out of fuel, or back on it with an outcome and a store as described. -/
def Yields {α : Type} (d : Nat) (s : Store) (x : Run α) (P : Except Raised α → Store → Prop) : Prop :=
  (∃ m, x ⟨s, d⟩ = .error .unfinished m) ∨ ∃ o s', x ⟨s, d⟩ = Run.ended o ⟨s', d⟩ ∧ P o s'

namespace Yields

variable {α β : Type} {d : Nat} {s : Store} {P Q : Except Raised α → Store → Prop}

theorem pure {a : α} (h : P (.ok a) s) : Yields d s (Pure.pure a) P := .inr ⟨.ok a, s, rfl, h⟩

theorem raise {error : EvalError} {blame : Value} (h : P (.error ⟨error, blame⟩) s) :
    Yields d s (Run.raise error blame) P :=
  .inr ⟨.error ⟨error, blame⟩, s, rfl, h⟩

theorem mono {x : Run α} (h : Yields d s x P) (hPQ : ∀ o s', P o s' → Q o s') : Yields d s x Q := by
  obtain hm | ⟨o, s', hx, hP⟩ := h
  · exact .inl hm
  · exact .inr ⟨o, s', hx, hPQ o s' hP⟩

theorem bind {x : Run α} {k : α → Run β} {R : Except Raised β → Store → Prop} (h : Yields d s x P)
    (ok : ∀ a s', P (.ok a) s' → Yields d s' (k a) R) (error : ∀ r s', P (.error r) s' → R (.error r) s') :
    Yields d s (x >>= k) R := by
  obtain ⟨m, hm⟩ | ⟨o, s', hx, hP⟩ := h
  · exact .inl ⟨m, Run.bind_of_error hm⟩
  · cases o with
    | ok a =>
      unfold Yields
      rw [Run.bind_of_ok hx]
      exact ok a s' hP
    | error r => exact .inr ⟨.error r, s', Run.bind_of_error hx, error r s' hP⟩

theorem withStore {f : Store → α × Store} {k : α → Run β} {R : Except Raised β → Store → Prop}
    (h : Yields d (f s).2 (k (f s).1) R) : Yields d s (Run.withStore f >>= k) R := by
  unfold Yields
  rw [Run.bind_of_ok (show Run.withStore f ⟨s, d⟩ = .ok (f s).1 ⟨(f s).2, d⟩ from rfl)]
  exact h

theorem get {k : Machine → Run β} {R : Except Raised β → Store → Prop} (h : Yields d s (k ⟨s, d⟩) R) :
    Yields d s (MonadState.get >>= k) R := h

end Yields

/-! ## The shapes of expressions -/

theorem SpecialForm.ofName?_eq_some {name : String} {form : SpecialForm} (h : ofName? name = some form) :
    name = form.name := by
  unfold ofName? at h
  split at h <;> cases h <;> rfl

theorem Value.noKeyword_of_headForm? {head : Value} (h : headForm? head = none) : head.NoKeyword := by
  rintro form rfl
  rw [headForm?, Value.symbol?, Option.bind_some, SpecialForm.ofName?_name] at h
  cases h

theorem Value.eq_of_headForm? {head : Value} {form : SpecialForm} (h : headForm? head = some form) :
    head = .sym form.name := by
  unfold headForm? Value.symbol? at h
  split at h
  · next name => rw [SpecialForm.ofName?_eq_some h]
  · cases h

theorem Value.toList?_eq_cons {v front : Value} {later : List Value} (h : v.toList? = some (front :: later)) :
    ∃ l back, v = .pair l front back ∧ back.toList? = some later := by
  cases v with
  | pair l car cdr =>
    rw [toList?_pair] at h
    obtain ⟨items, hcdr, heq⟩ := Option.map_eq_some_iff.1 h
    cases heq
    exact ⟨l, cdr, rfl, hcdr⟩
  | nil => cases h
  | _ => cases h

theorem Value.elements_of_toList? {v : Value} {items : List Value} (h : v.toList? = some items) :
    v.elements = items := by
  induction v generalizing items with
  | pair l car cdr _ ih =>
    rw [toList?_pair] at h
    obtain ⟨later, hcdr, rfl⟩ := Option.map_eq_some_iff.1 h
    rw [elements, ih hcdr]
  | nil => cases h; rfl
  | _ => cases h

theorem Value.eq_sym_of_kind {v : Value} (h : v.kind = .symbol) : ∃ name, v = .sym name := by
  cases v <;> first | exact ⟨_, rfl⟩ | cases h

theorem Evaluates.of_nil {limit d : Nat} {f : FrameId} {s s' : Store} {o : Except Raised Value}
    (h : Evaluates limit d f .nil s o s') : o = .ok .nil ∧ s' = s := by
  cases h with
  | itself => exact ⟨rfl, rfl⟩
  | improper hpair => cases hpair
  | _ => simp_all

/-! ## One round -/

section Round

variable {limit d : Nat} {sub : Eval}

/-- Subexpressions are evaluated as derivable from level `d` on. -/
def SoundAt (limit d : Nat) (sub : Eval) : Prop := ∀ f e s, Yields d s (sub f e) (Starts limit d f e s)

/-- What a round owes: a derivation, given one of the expression it goes on with. -/
def Leads (limit d : Nat) (D : Except Raised Value → Store → Prop) : Except Raised Next → Store → Prop
  | .ok (.value v), s => D (.ok v) s
  | .ok (.tail f e), s => ∀ o s', Evaluates limit d f e s o s' → D o s'
  | .error r, s => D (.error r) s

theorem Leads.mono {D D' : Except Raised Value → Store → Prop} (h : ∀ o s, D o s → D' o s) :
    ∀ o s, Leads limit d D o s → Leads limit d D' o s
  | .ok (.value _), _, hD => h _ _ hD
  | .ok (.tail _ _), _, hD => fun o s' he => h o s' (hD o s' he)
  | .error _, _, hD => h _ _ hD

theorem evalBody_yields (hsub : SoundAt limit (d + 1) sub) (f : FrameId) : ∀ (es : List Value) (s : Store),
    Yields (d + 1) s (evalBody sub f es) (Leads limit d (RunsBody limit d f es s))
  | [], s => .pure .none
  | [e], s => .pure fun o s' he => .last he
  | e :: e' :: es, s => by
    have hne : e' :: es ≠ [] := List.cons_ne_nil _ _
    refine (hsub f e s).bind (fun v s₁ he => ?_) (fun r s₁ he => .raised hne he)
    exact (evalBody_yields hsub f (e' :: es) s₁).mono (Leads.mono fun o s' hes => .next hne he hes)

theorem evalUntil_yields (hsub : SoundAt limit (d + 1) sub) (stop : Bool) (f : FrameId) :
    ∀ (es : List Value) (s : Store),
      Yields (d + 1) s (evalUntil sub stop f es) (Leads limit d (RunsUntil limit stop d f es s))
  | [], s => .pure .none
  | [e], s => .pure fun o s' he => .last he
  | e :: e' :: es, s => by
    have hne : e' :: es ≠ [] := List.cons_ne_nil _ _
    refine (hsub f e s).bind (fun v s₁ he => ?_) (fun r s₁ he => .raised hne he)
    split
    · next hv => exact .pure (.stopped hne he (beq_iff_eq.1 hv))
    · next hv =>
      have hv : v.isTruthy ≠ stop := fun heq => hv (beq_iff_eq.2 heq)
      exact (evalUntil_yields hsub stop f (e' :: es) s₁).mono (Leads.mono fun o s' hes => .next hne he hv hes)

theorem evalAll_yields (hsub : SoundAt limit (d + 1) sub) (f : FrameId) : ∀ (es : List Value) (s : Store),
    Yields (d + 1) s (es.mapM (sub f)) (EvaluatesAll limit d f es s)
  | [], s => .pure .nil
  | e :: es, s => by
    rw [List.mapM_cons]
    refine (hsub f e s).bind (fun v s₁ he => ?_) (fun r s₁ he => .first he)
    refine (evalAll_yields hsub f es s₁).bind (fun vs s' hes => .pure (.cons he hes)) (fun r s' hes => .later he hes)

theorem evalBindings_yields (hsub : SoundAt limit (d + 1) sub) (f : FrameId) (blame : Value) :
    ∀ (items : List Value) (inner : Frame) (s : Store),
      Yields (d + 1) s (evalBindings sub f blame inner items) (Binds limit d f blame items inner s)
  | [], inner, s => .pure .nil
  | item :: items, inner, s => by
    rw [evalBindings]
    split
    · next name init h =>
      refine (hsub f init s).bind (fun v s₁ hinit => ?_) (fun r s₁ hinit => .raised h hinit)
      exact (evalBindings_yields hsub f blame items (inner.define name v) s₁).mono
        fun o s' hitems => .cons h hinit hitems
    · next h => exact .raise (.malformed h)

theorem makeClosure_yields (name : Option String) (params body : Value) (f : FrameId) (blame : Value) (s : Store) :
    Yields d s (makeClosure name params body f blame) (Closes name params body f blame s) := by
  unfold makeClosure Parameters.check
  by_cases hbody : body.elements = []
  · rw [hbody]
    exact .raise (.noBody hbody)
  · rw [if_neg (by simpa using hbody)]
    cases hparams : Parameters.ofValue? params with
    | none => exact .raise (.badParameters hbody hparams)
    | some ps => exact .withStore (.pure (.made hbody hparams))

theorem applyProcedure_yields (hsub : SoundAt limit (d + 1) sub) (e procedure : Value) (args : List Value) (s : Store) :
    Yields (d + 1) s (applyProcedure sub e procedure args) (Leads limit d (Applies limit d e procedure args s)) := by
  cases procedure with
  | prim p =>
    unfold applyProcedure
    dsimp only
    split
    · next v h => exact .pure (.value h)
    · next items tail h => exact .withStore (.pure (.chain h))
    · next error h => exact .raise (.failure h)
    · next h => exact absurd h (p.call_ne_stuck args)
  | closure l name ps body f =>
    unfold applyProcedure Parameters.mismatch?
    dsimp only
    by_cases h : ps.arity.accepts args.length = true
    · rw [if_pos h]
      refine .withStore ?_
      exact (evalBody_yields hsub (s.bind ps args f).1 body.elements (s.bind ps args f).2).mono
        (Leads.mono fun o s' hb => .closure h hb)
    · rw [if_neg h]
      exact .raise (.mismatch (by simpa using h))
  | _ => exact .raise (.uncallable nofun)

section Special

variable {f : FrameId} {e : Value} {s : Store} {operands : List Value}

theorem evalQuote_yields (h : e.toList? = some (.sym "quote" :: operands)) (rest : Value) :
    Yields (d + 1) s (evalSpecial sub f e .quote rest operands) (Leads limit d (Evaluates limit d f e s)) := by
  unfold evalSpecial
  dsimp only
  split
  · exact .pure (.quote h)
  · next hn =>
    refine .raise (.quoteMalformed h fun hlength => ?_)
    obtain ⟨v, rfl⟩ := List.length_eq_one_iff.1 hlength
    exact hn v rfl

theorem evalCond_yields (hsub : SoundAt limit (d + 1) sub) (h : e.toList? = some (.sym "if" :: operands))
    (rest : Value) :
    Yields (d + 1) s (evalSpecial sub f e .cond rest operands) (Leads limit d (Evaluates limit d f e s)) := by
  unfold evalSpecial
  dsimp only
  split
  · next test consequent =>
    refine (hsub f test s).bind (fun v s₁ ht => ?_) (fun r s₁ ht => .condRaised h (by simp) ht)
    by_cases hv : v.isTruthy
    · rw [if_pos hv]
      exact .pure fun o s' hc => .condTrue h (by simp) ht hv hc
    · rw [if_neg hv]
      refine .pure fun o s' hc => ?_
      obtain ⟨rfl, rfl⟩ := hc.of_nil
      exact .condNothing h ht (by simpa using hv)
  · next test consequent alternative =>
    refine (hsub f test s).bind (fun v s₁ ht => ?_) (fun r s₁ ht => .condRaised h (by simp) ht)
    by_cases hv : v.isTruthy
    · rw [if_pos hv]
      exact .pure fun o s' hc => .condTrue h (by simp) ht hv hc
    · rw [if_neg hv]
      exact .pure fun o s' ha => .condFalse h ht (by simpa using hv) ha
  · next h2 h3 =>
    refine .raise (.condMalformed h ⟨fun hlength => ?_, fun hlength => ?_⟩)
    · match operands, hlength with
      | [a, b], _ => exact h2 a b rfl
    · match operands, hlength with
      | [a, b, c], _ => exact h3 a b c rfl

theorem evalDefine_yields (hsub : SoundAt limit (d + 1) sub) {l : Label} {rest : Value}
    (hrest : rest.toList? = some operands)
    (h : (Value.pair l (.sym "define") rest).toList? = some (.sym "define" :: operands)) :
    Yields (d + 1) s (evalSpecial sub f (.pair l (.sym "define") rest) .define rest operands)
      (Leads limit d (Evaluates limit d f (.pair l (.sym "define") rest) s)) := by
  unfold evalSpecial
  dsimp only
  split
  · next name value =>
    refine (hsub f value s).bind (fun v s₁ hv => ?_) (fun r s₁ hv => .defineRaised h hv)
    exact .withStore (.pure (.define h hv))
  · next l₂ target params tail l₁ front body =>
    obtain ⟨l₁', body', heq, hbody⟩ := Value.toList?_eq_cons hrest
    cases heq
    split
    · next name =>
      refine (makeClosure_yields (some name) params body f _ s).bind (fun v s₁ hc => ?_) (fun r s₁ hc => ?_)
      · exact .withStore (.pure (.defineProcedure hbody hc))
      · exact .defineProcedureMalformed hbody hc
    · next hname =>
      refine .raise (.defineNameless h fun hk => ?_)
      obtain ⟨name, rfl⟩ := Value.eq_sym_of_kind hk
      exact hname name rfl
  · next hvalue hprocedure =>
    refine .raise (.defineMalformed h (fun name value heq => hvalue name value heq) fun l target params tail heq => ?_)
    subst heq
    obtain ⟨l₁, body, rfl, -⟩ := Value.toList?_eq_cons hrest
    exact hprocedure _ _ _ _ _ _ _ rfl rfl

theorem evalAssign_yields (hsub : SoundAt limit (d + 1) sub) (h : e.toList? = some (.sym "set!" :: operands))
    (rest : Value) :
    Yields (d + 1) s (evalSpecial sub f e .assign rest operands) (Leads limit d (Evaluates limit d f e s)) := by
  unfold evalSpecial
  dsimp only
  split
  · next name value =>
    refine (hsub f value s).bind (fun v s₁ hv => ?_) (fun r s₁ hv => .assignRaised h hv)
    refine Yields.get ?_
    cases hr : s₁.resolve name f with
    | none => exact .raise (.assignUnbound h hv (by rw [Store.assign, hr]; rfl))
    | some found => exact .withStore (.pure (.assign h hv (by rw [Store.assign, hr]; rfl)))
  · next hn => exact .raise (.assignMalformed h hn)

theorem evalLambda_yields {l : Label} {rest : Value} (hrest : rest.toList? = some operands)
    (h : (Value.pair l (.sym "lambda") rest).toList? = some (.sym "lambda" :: operands)) :
    Yields (d + 1) s (evalSpecial sub f (.pair l (.sym "lambda") rest) .lambda rest operands)
      (Leads limit d (Evaluates limit d f (.pair l (.sym "lambda") rest) s)) := by
  unfold evalSpecial
  dsimp only
  split
  · next l₁ params body =>
    obtain ⟨exprs, hbody⟩ : ∃ exprs, body.toList? = some exprs := by
      rw [Value.toList?_pair] at hrest
      obtain ⟨exprs, hbody, -⟩ := Option.map_eq_some_iff.1 hrest
      exact ⟨exprs, hbody⟩
    refine (makeClosure_yields none params body f _ s).bind (fun v s₁ hc => .pure ?_) (fun r s₁ hc => ?_)
    · exact .lambda hbody hc
    · exact .lambda hbody hc
  · next hn =>
    cases operands with
    | nil => exact .raise (.lambdaMalformed h)
    | cons a as =>
      obtain ⟨l₁, body, rfl, -⟩ := Value.toList?_eq_cons hrest
      exact absurd rfl (hn l₁ a body)

theorem evalBinding_yields (hsub : SoundAt limit (d + 1) sub) (h : e.toList? = some (.sym "let" :: operands))
    (rest : Value) :
    Yields (d + 1) s (evalSpecial sub f e .binding rest operands) (Leads limit d (Evaluates limit d f e s)) := by
  unfold evalSpecial
  dsimp only
  split
  · exact .raise (.bindingMalformed h rfl)
  · next bindings body =>
    cases hitems : bindings.toList? with
    | none => exact .raise (.bindingMalformed h hitems)
    | some items =>
      refine (evalBindings_yields hsub f e items { parent := some f } s).bind (fun inner s₁ hb => ?_)
        (fun r s₁ hb => .bindingRaised h hitems hb)
      by_cases hne : body = []
      · subst hne
        exact .raise (.bindingNoBody h hitems hb)
      · rw [if_neg (by simpa using hne)]
        refine .withStore ?_
        exact (evalBody_yields hsub _ body _).mono (Leads.mono fun o s' hbody => .binding h hitems hb hne hbody)

end Special

/-- **The rule of each special form.** -/
theorem evalSpecial_yields (hsub : SoundAt limit (d + 1) sub) (f : FrameId) (form : SpecialForm) (l : Label)
    {rest : Value} {operands : List Value} (hrest : rest.toList? = some operands) (s : Store) :
    Yields (d + 1) s (evalSpecial sub f (.pair l (.sym form.name) rest) form rest operands)
      (Leads limit d (Evaluates limit d f (.pair l (.sym form.name) rest) s)) := by
  have h : (Value.pair l (.sym form.name) rest).toList? = some (.sym form.name :: operands) := by
    rw [Value.toList?_pair, hrest]
    rfl
  cases form with
  | quote => exact evalQuote_yields h rest
  | cond => exact evalCond_yields hsub h rest
  | define => exact evalDefine_yields hsub hrest h
  | assign => exact evalAssign_yields hsub h rest
  | lambda => exact evalLambda_yields hrest h
  | sequence => exact (evalBody_yields hsub f operands s).mono (Leads.mono fun o s' hb => .sequence h hb)
  | binding => exact evalBinding_yields hsub h rest
  | conjunction => exact (evalUntil_yields hsub false f operands s).mono (Leads.mono fun o s' hu => .conjunction h hu)
  | disjunction => exact (evalUntil_yields hsub true f operands s).mono (Leads.mono fun o s' hu => .disjunction h hu)

theorem evalRound_yields (hsub : SoundAt limit (d + 1) sub) (f : FrameId) (e : Value) (s : Store) :
    Yields (d + 1) s (evalRound sub f e) (Leads limit d (Evaluates limit d f e s)) := by
  cases e with
  | sym name =>
    refine Yields.get ?_
    cases hlookup : s.lookup f name with
    | none => exact .raise (.unbound hlookup)
    | some v => exact .pure (.variable hlookup)
  | pair l head rest =>
    unfold evalRound
    dsimp only
    cases hrest : rest.toList? with
    | none => exact .raise (.improper rfl (by rw [Value.toList?_pair, hrest]; rfl))
    | some operands =>
      cases hform : headForm? head with
      | some form =>
        obtain rfl := Value.eq_of_headForm? hform
        exact evalSpecial_yields hsub f form l hrest s
      | none =>
        have h : (Value.pair l head rest).toList? = some (head :: operands) := by
          rw [Value.toList?_pair, hrest]
          rfl
        have hk := Value.noKeyword_of_headForm? hform
        refine (hsub f head s).bind (fun p s₁ hhead => ?_) (fun r s₁ hhead => .headRaised h hk hhead)
        refine (evalAll_yields hsub f operands s₁).bind (fun args s₂ hargs => ?_)
          (fun r s₂ hargs => .argsRaised h hk hhead hargs)
        exact (applyProcedure_yields hsub _ p args s₂).mono (Leads.mono fun o s' ha => .call h hk hhead hargs ha)
  | _ => exact .pure (.itself nofun nofun)

end Round

/-! ## Levels and rounds -/

theorem descend_yields {limit d : Nat} {eval : Eval} {f : FrameId} {e : Value} {s : Store}
    (h : Yields (d + 1) s (eval f e) (Evaluates limit d f e s)) :
    Yields d s (descend limit eval f e) (Starts limit d f e s) := by
  unfold Yields descend
  dsimp only
  by_cases hd : limit ≤ d
  · rw [if_pos hd]
    exact .inr ⟨_, s, rfl, .tooDeep hd⟩
  · rw [if_neg hd]
    obtain ⟨m, hm⟩ | ⟨o, s', hx, ho⟩ := h
    · rw [hm]
      exact .inl ⟨_, rfl⟩
    · rw [hx]
      have hs : Starts limit d f e s o s' := .within (Nat.lt_of_not_le hd) ho
      cases o with
      | ok v => exact .inr ⟨.ok v, s', rfl, hs⟩
      | error r => exact .inr ⟨.error r, s', rfl, hs⟩

theorem evalRounds_yields (limit : Nat) : ∀ (fuel d : Nat) (f : FrameId) (e : Value) (s : Store),
    Yields (d + 1) s (evalRounds limit fuel f e) (Evaluates limit d f e s)
  | 0, d, f, e, s => .inl ⟨_, rfl⟩
  | fuel + 1, d, f, e, s => by
    have hsub : SoundAt limit (d + 1) (descend limit (evalRounds limit fuel)) := fun f e s =>
      descend_yields (evalRounds_yields limit fuel (d + 1) f e s)
    unfold Yields
    rw [evalRounds]
    obtain ⟨m, hm⟩ | ⟨o, s', hx, ho⟩ := evalRound_yields hsub f e s
    · rw [hm]
      exact .inl ⟨m, rfl⟩
    · rw [hx]
      match o, ho with
      | .ok (.value v), ho => exact .inr ⟨.ok v, s', rfl, ho⟩
      | .ok (.tail f' e'), ho => exact (evalRounds_yields limit fuel d f' e' s').mono ho
      | .error r, ho => exact .inr ⟨.error r, s', rfl, ho⟩

/-- **Whatever evaluation comes to is derivable**, unless it runs out of fuel. -/
theorem evaluate_yields (limit fuel d : Nat) (f : FrameId) (e : Value) (s : Store) :
    Yields d s (evaluate limit fuel f e) (Starts limit d f e s) := descend_yields (evalRounds_yields limit fuel d f e s)

end LispSession
