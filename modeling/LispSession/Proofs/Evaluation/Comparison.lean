import LispSession.Proofs.Evaluation.Completeness
/-!
# Two evaluations side by side

The rules of evaluation are told how to evaluate subexpressions.  Tell them in two ways that are related; then what they
do is related as well, provided that the relation holds between each single thing they do and itself, and is passed
along binds.  A `Comparison` is such a relation, and a round of evaluation keeps to it (`Comparison.evalRound`).  The
induction over the rules is done here, once.

Evaluators may differ in their rules, and in what it is to go a level deeper.  They all go round in the same way
(`evalWith`), so that comparing them comes down to comparing these two (`Comparison.evalWith`).
-/
namespace LispSession

/-- A relation between computations to which the rules of evaluation keep. -/
structure Comparison where
  rel {α : Type} : Run α → Run α → Prop
  -- What a rule does by itself is related to itself.
  pure {α : Type} (a : α) : rel (Pure.pure a) (Pure.pure a)
  get : rel MonadState.get MonadState.get
  withStore {α : Type} (f : Store → α × Store) : rel (Run.withStore f) (Run.withStore f)
  raise {α : Type} (error : EvalError) (blame : Value) :
    (∀ n, error ≠ .recursionLimit n) → rel (α := α) (Run.raise error blame) (Run.raise error blame)
  unfinished {α : Type} : rel (α := α) (throw .unfinished) (throw .unfinished)
  -- What rules are put together with.
  bind {α β : Type} {x y : Run α} {k k' : α → Run β} : rel x y → (∀ a, rel (k a) (k' a)) → rel (x >>= k) (y >>= k')

namespace Comparison

variable {C : Comparison} {α : Type} {sub sub' : Eval}

/-- Two ways to deal with an expression in a frame are related, whatever the two are. -/
def All (C : Comparison) (x y : FrameId → Value → Run α) : Prop := ∀ f e, C.rel (x f e) (y f e)

/-! ## One round -/

theorem evalBody (hsub : C.All sub sub') (f : FrameId) :
    ∀ es : List Value, C.rel (evalBody sub f es) (evalBody sub' f es)
  | [] => C.pure _
  | [_] => C.pure _
  | e :: e' :: es => C.bind (hsub f e) fun _ => evalBody hsub f (e' :: es)

theorem evalUntil (hsub : C.All sub sub') (stop : Bool) (f : FrameId) :
    ∀ es : List Value, C.rel (evalUntil sub stop f es) (evalUntil sub' stop f es)
  | [] => C.pure _
  | [_] => C.pure _
  | e :: e' :: es => by
    refine C.bind (hsub f e) fun v => ?_
    split
    · exact C.pure _
    · exact evalUntil hsub stop f (e' :: es)

theorem evalAll (hsub : C.All sub sub') (f : FrameId) : ∀ es : List Value, C.rel (es.mapM (sub f)) (es.mapM (sub' f))
  | [] => C.pure _
  | e :: es => by
    rw [List.mapM_cons, List.mapM_cons]
    exact C.bind (hsub f e) fun v => C.bind (evalAll hsub f es) fun vs => C.pure _

theorem evalBindings (hsub : C.All sub sub') (f : FrameId) (blame : Value) :
    ∀ (items : List Value) (inner : Frame),
      C.rel (evalBindings sub f blame inner items) (evalBindings sub' f blame inner items)
  | [], inner => C.pure inner
  | item :: items, inner => by
    rw [LispSession.evalBindings, LispSession.evalBindings]
    split
    · exact C.bind (hsub f _) fun v => evalBindings hsub f blame items _
    · exact C.raise _ _ (by simp)

theorem makeClosure (name : Option String) (params body : Value) (f : FrameId) (blame : Value) :
    C.rel (makeClosure name params body f blame) (makeClosure name params body f blame) := by
  unfold LispSession.makeClosure
  split
  · exact C.raise _ _ (by simp)
  · exact C.bind (C.withStore _) fun label => C.pure _

theorem defineName (f : FrameId) (name : String) (v : Value) : C.rel (defineName f name v) (defineName f name v) :=
  C.bind (C.withStore _) fun _ => C.pure _

theorem applyProcedure (hsub : C.All sub sub') (e procedure : Value) (args : List Value) :
    C.rel (applyProcedure sub e procedure args) (applyProcedure sub' e procedure args) := by
  cases procedure with
  | prim p =>
    unfold LispSession.applyProcedure
    dsimp only
    cases hcall : p.call args with
    | value v => exact C.pure _
    | chain items tail => exact C.bind (C.withStore _) fun v => C.pure _
    | failure error => exact C.raise error e fun n herror => p.call_unnested args n (herror ▸ hcall)
    | stuck => exact absurd hcall (p.call_ne_stuck args)
  | closure l name ps body f =>
    unfold LispSession.applyProcedure
    dsimp only
    split
    · next error herror =>
      unfold Parameters.mismatch? at herror
      split at herror
      · cases herror
      · cases herror
        exact C.raise _ _ (by simp)
    · exact C.bind (C.withStore _) fun inner => evalBody hsub inner _
  | _ => exact C.raise _ _ (by simp)

theorem evalSpecial (hsub : C.All sub sub') (f : FrameId) (e : Value) (form : SpecialForm) (rest : Value)
    (operands : List Value) :
    C.rel (evalSpecial sub f e form rest operands) (evalSpecial sub' f e form rest operands) := by
  unfold LispSession.evalSpecial
  cases form with
  | quote =>
    dsimp only
    split
    · exact C.pure _
    · exact C.raise _ _ (by simp)
  | cond =>
    dsimp only
    split
    · refine C.bind (hsub f _) fun v => ?_
      split <;> exact C.pure _
    · refine C.bind (hsub f _) fun v => ?_
      split <;> exact C.pure _
    · exact C.raise _ _ (by simp)
  | define =>
    dsimp only
    split
    · exact C.bind (hsub f _) fun v => defineName f _ v
    · split
      · exact C.bind (makeClosure _ _ _ f e) fun v => defineName f _ v
      · exact C.raise _ _ (by simp)
    · exact C.raise _ _ (by simp)
  | assign =>
    dsimp only
    split
    · refine C.bind (hsub f _) fun v => C.bind C.get fun m => ?_
      split
      · exact C.bind (C.withStore _) fun _ => C.pure _
      · exact C.raise _ _ (by simp)
    · exact C.raise _ _ (by simp)
  | lambda =>
    dsimp only
    split
    · exact C.bind (makeClosure _ _ _ f e) fun v => C.pure _
    · exact C.raise _ _ (by simp)
  | sequence => exact evalBody hsub f operands
  | binding =>
    dsimp only
    split
    · exact C.raise _ _ (by simp)
    · split
      · exact C.raise _ _ (by simp)
      · refine C.bind (evalBindings hsub f e _ _) fun inner => ?_
        split
        · exact C.raise _ _ (by simp)
        · exact C.bind (C.withStore _) fun inner => evalBody hsub inner _
  | conjunction => exact evalUntil hsub false f operands
  | disjunction => exact evalUntil hsub true f operands

/-- **A round of evaluation keeps to every comparison.** -/
theorem evalRound (hsub : C.All sub sub') : C.All (evalRound sub) (evalRound sub') := by
  intro f e
  cases e with
  | sym name =>
    refine C.bind C.get fun m => ?_
    split
    · exact C.pure _
    · exact C.raise _ _ (by simp)
  | pair l head rest =>
    unfold LispSession.evalRound
    dsimp only
    split
    · exact C.raise _ _ (by simp)
    · split
      · exact evalSpecial hsub f _ _ rest _
      · exact C.bind (hsub f head) fun p => C.bind (evalAll hsub f _) fun args => applyProcedure hsub _ p args
  | _ => exact C.pure _

end Comparison

/-! ## Rounds and levels -/

/-- An evaluator with the given rules, which goes a level deeper in the given way, in at most `fuel` rounds on each
level. -/
def evalWith (round : Eval → FrameId → Value → Run Next) (deeper : Eval → Eval) : Nat → Eval
  | 0, _, _ => throw .unfinished
  | fuel + 1, f, e => do
    match ← round (deeper (evalWith round deeper fuel)) f e with
    | .value v => return v
    | .tail f e => evalWith round deeper fuel f e

theorem evalRounds_eq_evalWith (limit fuel : Nat) :
    evalRounds limit fuel = evalWith evalRound (descend limit) fuel := by
  induction fuel with
  | zero => rfl
  | succ fuel ih =>
    funext f e m
    rw [evalRounds_succ, evaluate, ih, evalWith]
    refine congrArg
      (fun next => (evalRound (descend limit (evalWith evalRound (descend limit) fuel)) f e >>= next) m) ?_
    funext next
    cases next with
    | value v => rfl
    | tail f e => exact congrFun (congrFun ih f) e

/-- **Evaluators compare as their rules and their levels do.**  The comparison may depend on the level. -/
theorem Comparison.evalWith (C : Nat → Comparison) {round round' : Eval → FrameId → Value → Run Next}
    {deeper deeper' : Eval → Eval} (hround : ∀ {d sub sub'}, (C d).All sub sub' → (C d).All (round sub) (round' sub'))
    (hdeeper : ∀ {d eval eval'}, (C (d + 1)).All eval eval' → (C d).All (deeper eval) (deeper' eval')) (fuel : Nat) :
    ∀ d, (C d).All (evalWith round deeper fuel) (evalWith round' deeper' fuel) := by
  -- Less fuel is left on the next level and for the next round alike, so one induction covers both.
  induction fuel with
  | zero => exact fun d f e => (C d).unfinished
  | succ fuel ih =>
    intro d f e
    refine (C d).bind (hround (hdeeper (ih (d + 1))) f e) fun next => ?_
    cases next with
    | value v => exact (C d).pure v
    | tail f' e' => exact ih d f' e'

end LispSession
