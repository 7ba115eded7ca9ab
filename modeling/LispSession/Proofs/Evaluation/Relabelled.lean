import LispSession.Proofs.Evaluation.Completeness
import LispSession.Proofs.Relabelling
/-!
# Labels do not matter to evaluation

Evaluation commutes with relabelling (`evaluate_relabelled`): with the same fuel, the same limit and the same frames it
comes to the same outcome and the same store, relabelled, or does not come to an end either.

`Relabelled` says this of two computations, the second one working on relabelled values, and is passed along the binds
of the evaluator.
-/
namespace LispSession

variable {ρ : Relabelling}

/-! ## Computations -/

/-- The second computation does on a relabelled machine what the first one does: it comes to the same result,
relabelled, and what comes to a value has not taken labels back. -/
def Relabelled {α β : Type} (ρ : Relabelling) (act : α → β) (x : Run α) (y : Run β) : Prop :=
  ∀ m : Machine, ρ.bound ≤ m.store.nextLabel →
    match x m with
    | .ok a m' => y (m.relabel ρ) = .ok (act a) (m'.relabel ρ) ∧ ρ.bound ≤ m'.store.nextLabel
    | .error halt m' => y (m.relabel ρ) = .error (halt.relabel ρ) (m'.relabel ρ)

namespace Relabelled

variable {α β γ δ : Type} {g : α → β}

theorem pure {a : α} {b : β} (h : g a = b) : Relabelled ρ g (Pure.pure a) (Pure.pure b) := fun _ hm => h ▸ ⟨rfl, hm⟩

theorem raise (error : EvalError) (blame : Value) :
    Relabelled ρ g (Run.raise error blame) (Run.raise error (blame.relabel ρ)) := fun _ _ => rfl

theorem stuck : Relabelled ρ g (throw .stuck) (throw .stuck) := fun _ _ => rfl

theorem bind {x : Run α} {y : Run β} {g' : γ → δ} {k : α → Run γ} {k' : β → Run δ} (hx : Relabelled ρ g x y)
    (hk : ∀ a, Relabelled ρ g' (k a) (k' (g a))) : Relabelled ρ g' (x >>= k) (y >>= k') := by
  intro m hm
  have hx := hx m hm
  rcases h : x m with ⟨a, m'⟩ | ⟨halt, m'⟩
  · rw [h] at hx
    rw [Run.bind_of_ok h, Run.bind_of_ok hx.1]
    exact hk a m' hx.2
  · rw [h] at hx
    rw [Run.bind_of_error h, Run.bind_of_error hx]

theorem withStore {f : Store → α × Store} {f' : Store → β × Store}
    (h : ∀ s, ρ.bound ≤ s.nextLabel → f' (s.relabel ρ) = (g (f s).1, (f s).2.relabel ρ) ∧ ρ.bound ≤ (f s).2.nextLabel) :
    Relabelled ρ g (Run.withStore f) (Run.withStore f') := by
  intro ⟨s, d⟩ hm
  obtain ⟨hf, hnext⟩ := h s hm
  refine ⟨?_, hnext⟩
  show (EStateM.Result.ok (f' (s.relabel ρ)).1 ⟨(f' (s.relabel ρ)).2, d⟩ : EStateM.Result Halt Machine β) = _
  rw [hf]
  rfl

theorem get : Relabelled ρ (Machine.relabel ρ) MonadState.get MonadState.get := fun _ hm => ⟨rfl, hm⟩

end Relabelled

/-! ## One round -/

section Round

variable {sub sub' : Eval}

/-- Subexpressions, relabelled, are evaluated alike. -/
def RelabelledAll (ρ : Relabelling) (sub sub' : Eval) : Prop :=
  ∀ f e, Relabelled ρ (Value.relabel ρ) (sub f e) (sub' f (e.relabel ρ))

theorem evalBody_relabelled (hsub : RelabelledAll ρ sub sub') (f : FrameId) : ∀ es : List Value,
    Relabelled ρ (Next.relabel ρ) (evalBody sub f es) (evalBody sub' f (es.map (Value.relabel ρ)))
  | [] => .pure rfl
  | [_] => .pure rfl
  | e :: e' :: es => (hsub f e).bind fun _ => evalBody_relabelled hsub f (e' :: es)

theorem evalUntil_relabelled (hsub : RelabelledAll ρ sub sub') (stop : Bool) (f : FrameId) : ∀ es : List Value,
    Relabelled ρ (Next.relabel ρ) (evalUntil sub stop f es) (evalUntil sub' stop f (es.map (Value.relabel ρ)))
  | [] => .pure rfl
  | [_] => .pure rfl
  | e :: e' :: es => by
    refine (hsub f e).bind fun v => ?_
    rw [Value.isTruthy_relabel]
    split
    · exact .pure rfl
    · exact evalUntil_relabelled hsub stop f (e' :: es)

theorem evalAll_relabelled (hsub : RelabelledAll ρ sub sub') (f : FrameId) : ∀ es : List Value,
    Relabelled ρ (List.map (Value.relabel ρ)) (es.mapM (sub f)) ((es.map (Value.relabel ρ)).mapM (sub' f))
  | [] => .pure rfl
  | e :: es => by
    rw [List.map_cons, List.mapM_cons, List.mapM_cons]
    exact (hsub f e).bind fun v => (evalAll_relabelled hsub f es).bind fun vs => .pure rfl

theorem toList?_binding_relabel (item : Value) (h : ∀ name init, item.toList? ≠ some [.sym name, init]) (name : String)
    (init : Value) :
    (item.relabel ρ).toList? ≠ some [.sym name, init] := by
  rw [Value.toList?_relabel]
  intro heq
  obtain ⟨items, hitems, hmap⟩ := Option.map_eq_some_iff.1 heq
  obtain ⟨front, later, rfl, hfront, hlater⟩ := List.map_eq_cons_iff.1 hmap
  obtain ⟨second, rest, rfl, -, hrest⟩ := List.map_eq_cons_iff.1 hlater
  obtain rfl := List.map_eq_nil_iff.1 hrest
  cases front with
  | sym name' => exact h name' second hitems
  | _ => cases hfront

theorem evalBindings_relabelled (hsub : RelabelledAll ρ sub sub') (f : FrameId) (blame : Value) :
    ∀ (items : List Value) (inner : Frame),
      Relabelled ρ (Frame.relabel ρ) (evalBindings sub f blame inner items)
        (evalBindings sub' f (blame.relabel ρ) (inner.relabel ρ) (items.map (Value.relabel ρ)))
  | [], inner => .pure rfl
  | item :: items, inner => by
    rw [List.map_cons, evalBindings]
    split
    · next name init h =>
      have h' : (item.relabel ρ).toList? = some [.sym name, init.relabel ρ] := by rw [Value.toList?_relabel, h]; rfl
      rw [evalBindings, h']
      refine (hsub f init).bind fun v => ?_
      rw [← Frame.define_relabel]
      exact evalBindings_relabelled hsub f blame items _
    · next h =>
      rw [evalBindings]
      split
      · next name init h' => exact absurd h' (toList?_binding_relabel item h name init)
      · exact .raise _ blame

theorem makeClosure_relabelled (name : Option String) (params body : Value) (f : FrameId) (blame : Value) :
    Relabelled ρ (Value.relabel ρ) (makeClosure name params body f blame)
      (makeClosure name (params.relabel ρ) (body.relabel ρ) f (blame.relabel ρ)) := by
  unfold makeClosure
  rw [Parameters.check_relabel]
  split
  · exact .raise _ blame
  · refine .bind (g := ρ.new) (.withStore fun s hs => ⟨Store.freshLabel_relabel hs, Nat.le_succ_of_le hs⟩)
      fun label => .pure rfl

theorem defineName_relabelled (f : FrameId) (name : String) (v : Value) :
    Relabelled ρ (Next.relabel ρ) (defineName f name v) (defineName f name (v.relabel ρ)) :=
  .bind (g := id) (.withStore fun s hs => ⟨by rw [← Store.define_relabel], hs⟩) fun _ => .pure rfl

theorem applyProcedure_relabelled (hsub : RelabelledAll ρ sub sub') (e procedure : Value) (args : List Value) :
    Relabelled ρ (Next.relabel ρ) (applyProcedure sub e procedure args)
      (applyProcedure sub' (e.relabel ρ) (procedure.relabel ρ) (args.map (Value.relabel ρ))) := by
  cases procedure with
  | prim p =>
    rw [Value.relabel]
    unfold applyProcedure
    dsimp only
    rw [Primitive.call_relabel]
    cases p.call args with
    | value v => exact .pure rfl
    | chain items tail =>
      exact .bind (g := Value.relabel ρ) (.withStore fun s hs => Store.chain_relabel items tail hs) fun v => .pure rfl
    | failure error => exact .raise error e
    | stuck => exact .stuck
  | closure l name ps body g =>
    rw [Value.relabel]
    unfold applyProcedure
    dsimp only
    rw [List.length_map]
    split
    · exact .raise _ e
    · rw [Value.elements_relabel]
      exact .bind (g := id) (.withStore fun s hs => Store.bind_relabel hs ps args g)
        fun inner => evalBody_relabelled hsub inner _
  | _ => exact .raise _ e

section Special

variable {e rest : Value} {operands : List Value}

theorem evalCond_relabelled (hsub : RelabelledAll ρ sub sub') (f : FrameId) :
    Relabelled ρ (Next.relabel ρ) (evalSpecial sub f e .cond rest operands)
      (evalSpecial sub' f (e.relabel ρ) .cond (rest.relabel ρ) (operands.map (Value.relabel ρ))) := by
  rcases operands with _ | ⟨test, _ | ⟨consequent, _ | ⟨alternative, _ | ⟨_, _⟩⟩⟩⟩
  · exact .raise _ e
  · exact .raise _ e
  · refine (hsub f test).bind fun v => ?_
    rw [Value.isTruthy_relabel]
    split <;> exact .pure rfl
  · refine (hsub f test).bind fun v => ?_
    rw [Value.isTruthy_relabel]
    split <;> exact .pure rfl
  · exact .raise _ e

theorem evalDefine_relabelled (hsub : RelabelledAll ρ sub sub') (f : FrameId) (hrest : rest.toList? = some operands) :
    Relabelled ρ (Next.relabel ρ) (evalSpecial sub f e .define rest operands)
      (evalSpecial sub' f (e.relabel ρ) .define (rest.relabel ρ) (operands.map (Value.relabel ρ))) := by
  cases operands with
  | nil => exact .raise _ e
  | cons first later =>
    obtain ⟨l₁, body, rfl, -⟩ := Value.toList?_eq_cons hrest
    cases first with
    | sym name =>
      rcases later with _ | ⟨value, _ | ⟨_, _⟩⟩
      · exact .raise _ e
      · exact (hsub f value).bind fun v => defineName_relabelled f name v
      · exact .raise _ e
    | pair l target params =>
      cases target with
      | sym name =>
        exact (makeClosure_relabelled (some name) params body f e).bind fun v => defineName_relabelled f name v
      | _ => exact .raise _ e
    | _ => exact .raise _ e

theorem evalAssign_relabelled (hsub : RelabelledAll ρ sub sub') (f : FrameId) :
    Relabelled ρ (Next.relabel ρ) (evalSpecial sub f e .assign rest operands)
      (evalSpecial sub' f (e.relabel ρ) .assign (rest.relabel ρ) (operands.map (Value.relabel ρ))) := by
  rcases operands with _ | ⟨first, _ | ⟨value, _ | ⟨_, _⟩⟩⟩
  · exact .raise _ e
  · cases first <;> exact .raise _ e
  · cases first with
    | sym name =>
      refine (hsub f value).bind fun v => Relabelled.get.bind fun m => ?_
      rw [Machine.relabel, Store.resolve_relabel]
      cases m.store.resolve name f with
      | none => exact .raise _ e
      | some found =>
        exact .bind (g := id) (.withStore fun s hs => ⟨by rw [← Store.define_relabel], hs⟩) fun _ => .pure rfl
    | _ => exact .raise _ e
  · cases first <;> exact .raise _ e

theorem evalBinding_relabelled (hsub : RelabelledAll ρ sub sub') (f : FrameId) :
    Relabelled ρ (Next.relabel ρ) (evalSpecial sub f e .binding rest operands)
      (evalSpecial sub' f (e.relabel ρ) .binding (rest.relabel ρ) (operands.map (Value.relabel ρ))) := by
  cases operands with
  | nil => exact .raise _ e
  | cons bindings body =>
    rw [List.map_cons]
    unfold evalSpecial
    dsimp only
    rw [Value.toList?_relabel]
    cases bindings.toList? with
    | none => exact .raise _ e
    | some items =>
      refine (evalBindings_relabelled hsub f e items { parent := some f }).bind fun inner => ?_
      rw [List.isEmpty_map]
      split
      · exact .raise _ e
      · exact .bind (g := id) (.withStore fun s hs => ⟨s.addFrame_relabel inner, hs⟩)
          fun inner => evalBody_relabelled hsub inner body

theorem evalSpecial_relabelled (hsub : RelabelledAll ρ sub sub') (f : FrameId) (form : SpecialForm)
    (hrest : rest.toList? = some operands) :
    Relabelled ρ (Next.relabel ρ) (evalSpecial sub f e form rest operands)
      (evalSpecial sub' f (e.relabel ρ) form (rest.relabel ρ) (operands.map (Value.relabel ρ))) := by
  cases form with
  | quote =>
    rcases operands with _ | ⟨datum, _ | ⟨_, _⟩⟩
    · exact .raise _ e
    · exact .pure rfl
    · exact .raise _ e
  | cond => exact evalCond_relabelled hsub f
  | define => exact evalDefine_relabelled hsub f hrest
  | assign => exact evalAssign_relabelled hsub f
  | lambda =>
    cases rest with
    | pair l params body => exact (makeClosure_relabelled none params body f e).bind fun v => .pure rfl
    | _ => exact .raise _ e
  | sequence => exact evalBody_relabelled hsub f operands
  | binding => exact evalBinding_relabelled hsub f
  | conjunction => exact evalUntil_relabelled hsub false f operands
  | disjunction => exact evalUntil_relabelled hsub true f operands

end Special

theorem evalRound_relabelled (hsub : RelabelledAll ρ sub sub') (f : FrameId) (e : Value) :
    Relabelled ρ (Next.relabel ρ) (evalRound sub f e) (evalRound sub' f (e.relabel ρ)) := by
  cases e with
  | sym name =>
    refine Relabelled.get.bind fun m => ?_
    rw [Machine.relabel, Store.lookup_relabel]
    cases m.store.lookup f name with
    | none => exact .raise _ (.sym name)
    | some v => exact .pure rfl
  | pair l head rest =>
    rw [Value.relabel]
    unfold evalRound
    dsimp only
    rw [Value.toList?_relabel, headForm?_relabel]
    cases hrest : rest.toList? with
    | none => exact .raise _ (.pair l head rest)
    | some operands =>
      cases headForm? head with
      | some form => exact evalSpecial_relabelled hsub f form hrest
      | none =>
        refine (hsub f head).bind fun p => (evalAll_relabelled hsub f operands).bind fun args => ?_
        exact applyProcedure_relabelled hsub (.pair l head rest) p args
  | _ => exact .pure rfl

end Round

/-! ## Levels and rounds -/

theorem descend_relabelled (limit : Nat) {eval eval' : Eval} (h : RelabelledAll ρ eval eval') :
    RelabelledAll ρ (descend limit eval) (descend limit eval') := by
  intro f e m hm
  unfold descend
  by_cases hd : limit ≤ m.depth
  · rw [if_pos hd, if_pos (show limit ≤ (m.relabel ρ).depth from hd)]
    rfl
  · rw [if_neg hd, if_neg (show ¬limit ≤ (m.relabel ρ).depth from hd)]
    have hround := h f e { m with depth := m.depth + 1 } hm
    rcases hx : eval f e { m with depth := m.depth + 1 } with ⟨v, m'⟩ | ⟨halt, m'⟩
    · rw [hx] at hround
      have heval : eval' f (e.relabel ρ) { m.relabel ρ with depth := (m.relabel ρ).depth + 1 } =
          .ok (v.relabel ρ) (m'.relabel ρ) :=
        hround.1
      refine ⟨?_, hround.2⟩
      rw [heval]
      rfl
    · rw [hx] at hround
      have heval : eval' f (e.relabel ρ) { m.relabel ρ with depth := (m.relabel ρ).depth + 1 } =
        .error (halt.relabel ρ) (m'.relabel ρ) := hround
      rw [heval]
      rfl

theorem finish_relabelled (limit fuel : Nat) (h : RelabelledAll ρ (evalRounds limit fuel) (evalRounds limit fuel))
    (next : Next) :
    Relabelled ρ (Value.relabel ρ) (finish limit fuel next) (finish limit fuel (next.relabel ρ)) := by
  cases next with
  | value v => exact .pure rfl
  | tail f e => exact h f e

theorem evalRounds_relabelled (limit fuel : Nat) : RelabelledAll ρ (evalRounds limit fuel) (evalRounds limit fuel) := by
  induction fuel with
  | zero => exact fun f e m _ => rfl
  | succ fuel ih =>
    intro f e m hm
    simp only [evalRounds_succ]
    exact (evalRound_relabelled (descend_relabelled limit ih) f e).bind (finish_relabelled limit fuel ih) m hm

/-- **Labels do not matter to evaluation.** -/
theorem evaluate_relabelled (limit fuel : Nat) : RelabelledAll ρ (evaluate limit fuel) (evaluate limit fuel) :=
  descend_relabelled limit (evalRounds_relabelled limit fuel)

end LispSession
