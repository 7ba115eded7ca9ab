import LispSession.Proofs.Evaluation.Reach
import LispSession.Proofs.ParameterLists
/-!
# Evaluation stays in range

Evaluation asks for things that may not be there: arguments by position, what is left of the operands of a `let` behind
the first one, the last expression of a body.  Nothing checks that they are there where they are asked for.  The checks
are elsewhere: on the arity of a primitive when it is called, on the first operand of a `let` when its names are bound,
and on the body of a closure when it is made.

`evaluateStrictly` is the same evaluator without any answer where one of these is not there: it is stuck.  As long as
all closures were made by the check on their bodies it never is, and so it does the same as `evaluate`; and no
evaluation makes other closures (`evaluation_stays_in_range`).
-/
namespace LispSession

/-! ## Procedures that are well made -/

/-- All procedures in a value are well made: primitives are listed, and closures have passed the check on their
parameters and body.  The bodies of closures count as well. -/
def Value.WellMade : Value → Prop
  | .pair _ car cdr => car.WellMade ∧ cdr.WellMade
  | .prim p => p ∈ Primitive.all
  | .closure _ _ ps body _ => (∃ params, Parameters.check params body = .ok ps) ∧ body.WellMade
  | _ => True

/-- All values that a store binds are well made. -/
def Store.WellMade (s : Store) : Prop := s.Guards (fun _ _ => True) fun _ v => v.WellMade

theorem Value.WellMade.body_ne_nil {l : Label} {name : Option String} {ps : Parameters} {body : Value} {f : FrameId}
    (h : (Value.closure l name ps body f).WellMade) : body.elements ≠ [] := by
  obtain ⟨⟨params, hcheck⟩, -⟩ := h
  exact (Parameters.check_iff.1 hcheck).1

theorem ClosureForm.wellMade_body {e params body : Value} {name : Option String} (h : ClosureForm e name params body)
    (he : e.WellMade) : body.WellMade := by
  cases h with
  | lambda => exact he.2.2
  | define => exact he.2.2

/-- Data hold no procedures. -/
theorem Datum.wellMade_label (d : Datum) (next : Label) : (d.label next).1.WellMade := by
  induction d generalizing next with
  | pair car cdr ihCar ihCdr =>
    rw [label_pair]
    exact ⟨ihCar _, ihCdr _⟩
  | _ => trivial

/-- Evaluation makes closures by the check only. -/
def Discipline.wellMade : Discipline where
  frame _ _ := True
  value _ v := v.WellMade
  code _ _ e := e.WellMade
  store := Store.WellMade
  closureless := False
  value_mono _ h := h
  code_mono _ h := h
  frame_of_code _ := trivial
  value_of_code h := h
  code_element h hx := Value.of_mem_elements id h hx
  code_nil _ := trivial
  value_nil := trivial
  value_bool _ := trivial
  value_num _ := trivial
  value_pair := Iff.rfl
  value_closure _ h hform hbody hps :=
    ⟨⟨_, Parameters.check_iff.2 ⟨hbody, Parameters.ofValue?_iff.1 hps⟩⟩, hform.wellMade_body h⟩
  frame_of_closure _ := trivial
  code_body _ h hx := Value.of_mem_elements id h.2 hx
  code_enter _ h := h
  not_closure := False.elim
  store_bound hs hg hv := hs.bound _ _ _ hg hv
  store_parent _ _ _ := trivial
  store_labelled next hs := hs.labelledFrom next
  store_define name hs _ hv := hs.define _ name hv
  store_assign hs _ _ hv := hs.define _ _ hv
  store_addFrame hs hp hparent hbinds := hs.addFrame id (fun _ _ => trivial) id hp hparent hbinds

namespace Interpreter

/-- At the start there are primitives and strings only. -/
theorem start_wellMade (args : List String) (limit : Nat) : (start args limit).machine.store.WellMade := by
  obtain ⟨-, -, hbound⟩ := start_spec (P := Value.WellMade) Primitive.mem_all args (Datum.wellMade_label _ 0) limit
  exact ⟨fun g name v _ hv => hbound g name v hv, fun _ _ _ _ => trivial⟩

/-- From then on all procedures stay well made, whatever is evaluated. -/
theorem evaluateIn_wellMade (i : Interpreter) (f : FrameId) (d : Datum) (hs : i.machine.store.WellMade) :
    (i.evaluateIn f d).1.machine.store.WellMade := by
  obtain ⟨r, s', heq, -, hs', -⟩ := Discipline.wellMade.evaluateIn_keeps id i f d hs (d.wellMade_label _)
  rw [heq]
  exact hs'

end Interpreter

/-! ## Evaluating strictly -/

/-- What is left of a list from a position on, if the list goes as far as that. -/
def sliceFrom? {α : Type} (position : Nat) (items : List α) : Option (List α) :=
  if position ≤ items.length then some (items.drop position) else none

/-- The frame of a `let` with the given operands. -/
def bindOperands (sub : Eval) (f : FrameId) (e : Value) (operands : List Value) : Run Frame :=
  match operands.head?.bind Value.toList? with
  | some bindings => evalBindings sub f e { parent := some f } bindings
  | none => Run.raise (.malformed .bindingList) e

/-- The rule of `let`: bind the names, and then go on with the operands from the second one on.  The list of operands
has to go as far as that. -/
def evalLetStrictly (sub : Eval) (f : FrameId) (e : Value) (operands : List Value) : Run Next := do
  let inner ← bindOperands sub f e operands
  match sliceFrom? 1 operands with
  | none => throw .stuck
  | some [] => Run.raise (.malformed .bindingBody) e
  | some body =>
    let inner ← Run.withStore (·.addFrame inner)
    evalBody sub inner body

/-- The rule of a special form. -/
def evalSpecialStrictly (sub : Eval) (f : FrameId) (e : Value) (form : SpecialForm) (rest : Value)
    (operands : List Value) : Run Next :=
  match form with
  | .binding => evalLetStrictly sub f e operands
  | form => evalSpecial sub f e form rest operands

/-- Evaluate in turn, and go on with the last.  There has to be one. -/
def evalBodyStrictly (sub : Eval) (f : FrameId) : List Value → Run Next
  | [] => throw .stuck
  | e :: es => evalBody sub f (e :: es)

/-- Call a procedure.  The body of a closure has to have a last expression. -/
def applyStrictly (sub : Eval) (e procedure : Value) (args : List Value) : Run Next :=
  match procedure with
  | .closure _ name ps body f =>
    match ps.mismatch? name args.length with
    | some error => Run.raise error e
    | none => do
      let inner ← Run.withStore (·.bind ps args f)
      evalBodyStrictly sub inner body.elements
  | procedure => applyProcedure sub e procedure args

/-- One round of evaluation, with these rules. -/
def evalRoundStrictly (sub : Eval) (f : FrameId) (e : Value) : Run Next :=
  match e with
  | .pair _ head rest =>
    match rest.toList? with
    | none => Run.raise .improperList e
    | some operands =>
      match headForm? head with
      | some form => evalSpecialStrictly sub f e form rest operands
      | none => do
        let procedure ← sub f head
        let args ← operands.mapM (sub f)
        applyStrictly sub e procedure args
  | e => evalRound sub f e

/-- `evaluate`, with these rules. -/
def evaluateStrictly (limit fuel : Nat) : Eval := descend limit (evalWith evalRoundStrictly (descend limit) fuel)

section Rules

variable {sub : Eval} {f : FrameId} {e : Value}

/-- Where the names of a `let` are bound there is a first operand.  So there is something left behind it, if only an
empty list. -/
theorem evalSpecialStrictly_eq (form : SpecialForm) (rest : Value) (operands : List Value) :
    evalSpecialStrictly sub f e form rest operands = evalSpecial sub f e form rest operands := by
  cases form with
  | binding =>
    unfold evalSpecialStrictly evalLetStrictly bindOperands evalSpecial
    rcases operands with _ | ⟨bindings, body⟩
    · rfl
    · dsimp only [List.head?_cons, Option.bind_some]
      cases bindings.toList? with
      | none => rfl
      | some items => cases body <;> rfl
  | _ => rfl

theorem evalBodyStrictly_eq {es : List Value} (h : es ≠ []) : evalBodyStrictly sub f es = evalBody sub f es := by
  cases es with
  | nil => exact absurd rfl h
  | cons e es => rfl

theorem applyStrictly_eq {procedure : Value} (h : procedure.WellMade) (args : List Value) :
    applyStrictly sub e procedure args = applyProcedure sub e procedure args := by
  cases procedure with
  | closure l name ps body g =>
    unfold applyStrictly applyProcedure
    dsimp only
    cases ps.mismatch? name args.length with
    | some error => rfl
    | none => simp only [evalBodyStrictly_eq h.body_ne_nil]
  | _ => rfl

end Rules

/-! ## Strictly or not -/

/-- A computation is stuck or does the same as another one. -/
def StuckOrSame {α : Type} (x y : Run α) : Prop := ∀ m, (∃ m', x m = .error .stuck m') ∨ x m = y m

namespace StuckOrSame

variable {α β : Type}

theorem refl (x : Run α) : StuckOrSame x x := fun _ => .inr rfl

theorem trans {x y z : Run α} (hxy : StuckOrSame x y) (hyz : StuckOrSame y z) : StuckOrSame x z := by
  intro m
  obtain hstuck | hsame := hxy m
  · exact .inl hstuck
  · rw [hsame]
    exact hyz m

theorem bind {x y : Run α} {k k' : α → Run β} (hx : StuckOrSame x y) (hk : ∀ a, StuckOrSame (k a) (k' a)) :
    StuckOrSame (x >>= k) (y >>= k') := by
  intro m
  obtain ⟨m', hstuck⟩ | hsame := hx m
  · exact .inl ⟨m', Run.bind_of_error hstuck⟩
  · cases hy : y m with
    | ok a m' =>
      rw [Run.bind_of_ok (hsame.trans hy), Run.bind_of_ok hy]
      exact hk a m'
    | error halt m' => exact .inr ((Run.bind_of_error (hsame.trans hy)).trans (Run.bind_of_error hy).symm)

/-- The rules of evaluation pass it on. -/
def comparison : Comparison where
  rel := StuckOrSame
  pure _ := refl _
  get := refl _
  withStore _ := refl _
  raise _ _ _ := refl _
  unfinished := refl _
  bind := bind

variable {sub eval eval' : Eval}

theorem evalBodyStrictly (f : FrameId) : ∀ es : List Value, StuckOrSame (evalBodyStrictly sub f es) (evalBody sub f es)
  | [], m => .inl ⟨m, rfl⟩
  | _ :: _, _ => .inr rfl

theorem applyStrictly (e procedure : Value) (args : List Value) :
    StuckOrSame (applyStrictly sub e procedure args) (applyProcedure sub e procedure args) := by
  cases procedure with
  | closure l name ps body f =>
    unfold LispSession.applyStrictly applyProcedure
    dsimp only
    cases ps.mismatch? name args.length with
    | some error => exact refl _
    | none => exact (refl _).bind fun inner => evalBodyStrictly inner body.elements
  | _ => exact refl _

theorem evalRoundStrictly (f : FrameId) (e : Value) : StuckOrSame (evalRoundStrictly sub f e) (evalRound sub f e) := by
  cases e with
  | pair l head rest =>
    unfold LispSession.evalRoundStrictly evalRound
    dsimp only
    cases rest.toList? with
    | none => exact refl _
    | some operands =>
      cases headForm? head with
      | some form =>
        dsimp only
        rw [evalSpecialStrictly_eq]
        exact refl _
      | none => exact (refl _).bind fun procedure => (refl _).bind fun args => applyStrictly _ procedure args
  | _ => exact refl _

theorem descend {limit : Nat} (h : comparison.All eval eval') :
    comparison.All (descend limit eval) (descend limit eval') := by
  intro f e m
  unfold LispSession.descend
  by_cases hd : limit ≤ m.depth
  · exact .inr (by rw [if_pos hd, if_pos hd])
  · rw [if_neg hd, if_neg hd]
    obtain ⟨m', hstuck⟩ | hsame := h f e { m with depth := m.depth + 1 }
    · rw [hstuck]
      exact .inl ⟨_, rfl⟩
    · rw [hsame]
      exact .inr rfl

theorem evaluateStrictly (limit fuel : Nat) : comparison.All (evaluateStrictly limit fuel) (evaluate limit fuel) := by
  unfold LispSession.evaluateStrictly evaluate
  rw [evalRounds_eq_evalWith]
  refine descend (Comparison.evalWith (fun _ => comparison) ?_ (fun h => descend h) fuel 0)
  exact fun hsub f e => (evalRoundStrictly f e).trans (Comparison.evalRound hsub f e)

end StuckOrSame

/-! ## Evaluation is never stuck -/

namespace Discipline

/-- **A round with the strict rules makes closures by the check only**, and it is not stuck. -/
theorem roundKeeps_strictly : wellMade.RoundKeeps evalRoundStrictly := by
  intro d s f e sub hsub hs he
  cases e with
  | pair l head rest =>
    unfold evalRoundStrictly
    dsimp only
    cases hrest : rest.toList? with
    | none => exact .raise hs he _ (by simp)
    | some operands =>
      cases hform : headForm? head with
      | some form =>
        obtain rfl := Value.eq_of_headForm? hform
        dsimp only
        rw [evalSpecialStrictly_eq]
        exact evalSpecial_keeps form hsub hs he hrest
      | none =>
        refine evalCall_keeps hsub hs he hrest fun p args s' _ hs' hp hargs => ?_
        rw [applyStrictly_eq hp]
        exact applyProcedure_keeps hsub hs' he hp hargs
  | _ => exact evalRound_keeps hsub hs he

theorem evaluateStrictly_keeps {limit fuel d : Nat} {f : FrameId} {e : Value} {s : Store} (hs : s.WellMade)
    (he : e.WellMade) :
    wellMade.Keeps d s (evaluateStrictly limit fuel f e) wellMade.value :=
  descend_evalWith_keeps roundKeeps_strictly hs he False.elim

end Discipline

/-- **Evaluation stays in range.**  A primitive asks for no more arguments by position than its arity makes sure of, so
no call of one is stuck.  From a store and an expression whose procedures are all well made, in whatever frame and on
whatever level, evaluation comes to the same with the strict rules, and is not stuck: in a `let` there always is a list
of operands behind the first one, and in the body of a closure there always is a last expression.  All procedures stay
well made, in the store and in the value or the expression to blame. -/
theorem evaluation_stays_in_range (limit fuel : Nat) :
    (∀ (p : Primitive) (args : List Value), (p.run args = .stuck ↔ args.length < p.needs) ∧
      (p.arity.accepts args.length = true → p.needs ≤ args.length) ∧ p.call args ≠ .stuck) ∧
    ∀ (f : FrameId) (e : Value) (s : Store) (d : Nat), s.WellMade → e.WellMade → ∃ r s',
      evaluate limit fuel f e ⟨s, d⟩ = Run.back r ⟨s', d⟩ ∧
      evaluateStrictly limit fuel f e ⟨s, d⟩ = Run.back r ⟨s', d⟩ ∧
      r ≠ .error .stuck ∧ s'.WellMade ∧ ∀ o, r = Except.mapError .raised o → (handedOn o).WellMade := by
  refine ⟨fun p args => ⟨p.run_eq_stuck_iff args, Primitive.needs_le_of_accepts, p.call_ne_stuck args⟩,
    fun f e s d hs he => ?_⟩
  obtain ⟨r, s', hr, -, hs', hmeets⟩ : Discipline.wellMade.Keeps d s (evaluateStrictly limit fuel f e) _ :=
    Discipline.evaluateStrictly_keeps hs he
  have hstuck : r ≠ .error .stuck := by
    rintro rfl
    exact hmeets
  -- With the strict rules evaluation is stuck or does the same, and it is not stuck.
  have hplain : evaluate limit fuel f e ⟨s, d⟩ = Run.back r ⟨s', d⟩ := by
    obtain ⟨m, hm⟩ | hsame := StuckOrSame.evaluateStrictly limit fuel f e ⟨s, d⟩
    · have hm : evaluateStrictly limit fuel f e ⟨s, d⟩ = Run.back (.error .stuck) m := hm
      exact absurd (Run.back_inj (hr.symm.trans hm)).1 hstuck
    · exact hsame.symm.trans hr
  refine ⟨r, s', hplain, hr, hstuck, hs', ?_⟩
  rintro (raised | v) rfl
  · exact hmeets.1
  · exact hmeets

/-- `(let ((x #t)) (keep (not x)))`, where `keep` is `(lambda all all)`, comes to the list of `#f`. -/
theorem let_and_calls_stay_in_range :
    let form (items : List Value) : Value := items.foldr (.pair 0) .nil
    let e := form [.sym "let", form [form [.sym "x", .bool true]], form [.sym "keep", form [.sym "not", .sym "x"]]]
    let globals : Frame :=
      { bindings := [("not", .prim .not), ("keep", .closure 1 none ⟨[], some "all"⟩ (form [.sym "all"]) 0)] }
    let s : Store := { frames := #[globals], nextLabel := 2 }
    let v : Value := .pair 2 (.bool false) .nil
    let s' : Store := { frames := #[globals, { bindings := [("x", .bool true)], parent := some 0 },
      { bindings := [("all", v)], parent := some 0 }], nextLabel := 3 }
    s.WellMade ∧ e.WellMade ∧ evaluate 3 4 0 e ⟨s, 0⟩ = .ok v ⟨s', 0⟩ ∧
      evaluateStrictly 3 4 0 e ⟨s, 0⟩ = .ok v ⟨s', 0⟩ ∧ s'.WellMade ∧ v.WellMade := by
  intro form e globals s v s'
  have keep : (Value.closure 1 none ⟨[], some "all"⟩ (form [.sym "all"]) 0).WellMade :=
    ⟨⟨.sym "all", rfl⟩, trivial, trivial⟩
  have hglobals : globals.Binds Value.WellMade :=
    ((Frame.binds_empty none).define "keep" keep).define "not"
      (show (Value.prim .not).WellMade from Primitive.mem_all .not)
  have hs : s.WellMade := by
    refine ⟨fun g name w _ hw => ?_, fun _ _ _ _ => trivial⟩
    match g with
    | 0 => exact hglobals name w hw
    | g + 1 => cases hw
  have he : e.WellMade := by simp [e, form, Value.WellMade]
  have run : evaluate 3 4 0 e ⟨s, 0⟩ = Run.back (.ok v) ⟨s', 0⟩ := by with_unfolding_all rfl
  obtain ⟨r, t, hrun, hstrict, -, ht, hv⟩ := (evaluation_stays_in_range 3 4).2 0 e s 0 hs he
  obtain ⟨rfl, hm⟩ := Run.back_inj (run.symm.trans hrun)
  cases hm
  exact ⟨hs, he, run, hstrict, ht, hv (.ok v) rfl⟩

/-- What is not well made does reach a body without expressions. -/
example :
    let e : Value := .pair 0 (.closure 1 none ⟨[], none⟩ .nil 0) .nil
    evaluate 3 3 0 e {} = .ok .nil ⟨{ frames := #[{ parent := some 0 }] }, 0⟩ ∧
      evaluateStrictly 3 3 0 e {} = .error .stuck ⟨{ frames := #[{ parent := some 0 }] }, 0⟩ := ⟨rfl, rfl⟩

end LispSession
