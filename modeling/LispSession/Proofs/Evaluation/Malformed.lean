import LispSession.Proofs.Evaluation.Completeness
/-!
# Forms of the wrong shape

A special form looks at its shape before it evaluates any part of itself, so one that lacks the shape it needs does
nothing but fail.  There is one exception.  A `let` looks at a binding only when it comes to it, and at its body only
after that, so it has evaluated what its well-shaped bindings bind, up to the first bad one, when it fails for its shape
(`malformed_form_is_refused`).

`SpecialForm.Takes` says which shapes are needed, `SpecialForm.inits` what is evaluated nevertheless.
-/
namespace LispSession

/-- Symbols along a chain of pairs that ends in `nil` or in one more symbol. -/
def Value.ListsSymbols : Value → Prop
  | .nil | .sym _ => True
  | .pair _ car cdr => car.kind = .symbol ∧ cdr.ListsSymbols
  | _ => False

/-- What `let` can bind: `(name init)`. -/
def Value.IsBinding (item : Value) : Prop := ∃ name init, item.toList? = some [.sym name, init]

namespace SpecialForm

/-- The shapes that forms need. -/
def Takes : SpecialForm → List Value → Prop
  | .quote, operands => ∃ datum, operands = [datum]
  | .cond, operands =>
    ∃ test consequent, operands = [test, consequent] ∨ ∃ alternative, operands = [test, consequent, alternative]
  | .define, operands => (∃ name value, operands = [.sym name, value]) ∨
      ∃ l name params body, operands = .pair l (.sym name) params :: body ∧ params.ListsSymbols ∧ body ≠ []
  | .assign, operands => ∃ name value, operands = [.sym name, value]
  | .lambda, operands => ∃ params body, operands = params :: body ∧ params.ListsSymbols ∧ body ≠ []
  | .binding, operands => ∃ bindings items body, operands = bindings :: body ∧ bindings.toList? = some items ∧
      (∀ item ∈ items, item.IsBinding) ∧ body ≠ []
  | .sequence, _ | .conjunction, _ | .disjunction, _ => True

/-- What the leading bindings bind, as far as they have the right shape. -/
def leadingInits : List Value → List Value
  | [] => []
  | item :: items =>
    match item.toList? with
    | some [.sym _, init] => init :: leadingInits items
    | _ => []

/-- What a form of the wrong shape evaluates all the same. -/
def inits : SpecialForm → List Value → List Value
  | .binding, bindings :: _ => leadingInits (bindings.toList?.getD [])
  | _, _ => []

theorem leadingInits_cons {item init : Value} {name : String} (items : List Value)
    (h : item.toList? = some [.sym name, init]) :
    leadingInits (item :: items) = init :: leadingInits items := by
  rw [leadingInits, h]

theorem leadingInits_of_bad {item : Value} (items : List Value) (h : ¬item.IsBinding) :
    leadingInits (item :: items) = [] := by
  rw [leadingInits]
  split
  · next name init heq => exact absurd ⟨name, init, heq⟩ h
  · rfl

end SpecialForm

/-! ## Closures -/

theorem Parameters.ofValueAfter_isSome (reversed : List String) (v : Value) :
    (ofValueAfter reversed v).isSome ↔ v.ListsSymbols := by
  induction v generalizing reversed with
  | pair l car cdr _ ih =>
    cases car with
    | sym name =>
      rw [ofValueAfter, ih]
      exact ⟨fun h => ⟨rfl, h⟩, And.right⟩
    | _ => exact ⟨nofun, fun h => nomatch h.1⟩
  | nil | sym => exact ⟨fun _ => trivial, fun _ => rfl⟩
  | _ => exact ⟨nofun, nofun⟩

/-- Where the parameters are no symbols or the body is empty, no closure is made. -/
theorem makeClosure_malformed {params body : Value} {exprs : List Value} (hbody : body.toList? = some exprs)
    (h : ¬(params.ListsSymbols ∧ exprs ≠ [])) : ∃ what : Malformation, what.form = .lambda ∧
      ∀ name frame blame, makeClosure name params body frame blame = Run.raise (.malformed what) blame := by
  have helements := Value.elements_of_toList? hbody
  by_cases hempty : exprs = []
  · refine ⟨.lambdaBody, rfl, fun name frame blame => ?_⟩
    rw [makeClosure, Parameters.check, helements, hempty]
    rfl
  · have hparams : Parameters.ofValue? params = none := by
      rw [← Option.not_isSome_iff_eq_none]
      exact fun hsome => h ⟨(Parameters.ofValueAfter_isSome [] params).1 hsome, hempty⟩
    refine ⟨.lambdaParameters, rfl, fun name frame blame => ?_⟩
    rw [makeClosure, Parameters.check, helements, if_neg (by simpa using hempty), hparams]

/-! ## Bindings -/

section Bindings

variable {sub : Eval} {f : FrameId} {blame : Value}

theorem Run.raise_bind {α β : Type} (error : EvalError) (k : α → Run β) :
    (Run.raise error blame >>= k) = Run.raise error blame := rfl

/-- The bindings of a `let` come to nothing but what is bound, in turn. -/
theorem evalBindings_then {α : Type} (k : Run α) (items : List Value) (h : ∀ item ∈ items, item.IsBinding)
    (inner : Frame) :
    (do let _ ← evalBindings sub f blame inner items; k) =
      (do let _ ← (SpecialForm.leadingInits items).mapM (sub f); k) := by
  induction items generalizing inner with
  | nil => rfl
  | cons item items ih =>
    obtain ⟨⟨name, init, hitem⟩, hitems⟩ := List.forall_mem_cons.1 h
    rw [SpecialForm.leadingInits_cons items hitem, List.mapM_cons]
    simp only [evalBindings, hitem, bind_assoc, ih hitems, pure_bind]

theorem evalBindings_malformed (items : List Value) (h : ¬∀ item ∈ items, item.IsBinding) (inner : Frame) :
    evalBindings sub f blame inner items =
      (do let _ ← (SpecialForm.leadingInits items).mapM (sub f); Run.raise (.malformed .bindingList) blame) := by
  induction items generalizing inner with
  | nil => exact absurd nofun h
  | cons item items ih =>
    by_cases hitem : item.IsBinding
    · obtain ⟨name, init, heq⟩ := hitem
      have hitems : ¬∀ item ∈ items, item.IsBinding := fun hall => h (List.forall_mem_cons.2 ⟨⟨name, init, heq⟩, hall⟩)
      rw [SpecialForm.leadingInits_cons items heq, List.mapM_cons]
      simp only [evalBindings, heq, bind_assoc, ih hitems, pure_bind]
    · rw [SpecialForm.leadingInits_of_bad items hitem]
      unfold evalBindings
      split
      · next name init heq => exact absurd ⟨name, init, heq⟩ hitem
      · rfl

end Bindings

/-! ## Forms -/

section Forms

variable {rest : Value} {operands : List Value}

/-- The error of a form that lacks its shape.  A procedure definition is a `lambda` in this respect. -/
def Malformation.Of (what : Malformation) (form : SpecialForm) : Prop :=
  what.form = form ∨ what.form = .lambda ∧ form = .define

theorem evalDefine_refused (hrest : rest.toList? = some operands) (hshape : ¬SpecialForm.define.Takes operands) :
    ∃ what : Malformation, what.Of .define ∧
      ∀ sub f e, evalSpecial sub f e .define rest operands = Run.raise (.malformed what) e := by
  have hvalue (name : String) (value : Value) : operands ≠ [.sym name, value] :=
    fun heq => hshape (.inl ⟨name, value, heq⟩)
  by_cases hprocedure : ∃ l target params body, operands = .pair l target params :: body
  · obtain ⟨l, target, params, exprs, rfl⟩ := hprocedure
    obtain ⟨l₁, body, rfl, hbody⟩ := Value.toList?_eq_cons hrest
    by_cases ht : target.kind = .symbol
    · obtain ⟨name, rfl⟩ := Value.eq_sym_of_kind ht
      have hclosure : ¬(params.ListsSymbols ∧ exprs ≠ []) := fun h => hshape (.inr ⟨l, name, params, exprs, rfl, h⟩)
      obtain ⟨what, hform, hraise⟩ := makeClosure_malformed hbody hclosure
      refine ⟨what, .inr ⟨hform, rfl⟩, fun sub f e => ?_⟩
      simp only [evalSpecial, hraise, Run.raise_bind]
    · exact ⟨.defineName, .inl rfl, fun _ _ _ => evalDefine_nameless ht⟩
  · exact ⟨.defineOperands, .inl rfl, fun _ _ _ =>
      evalDefine_malformed hvalue fun l target params body heq => hprocedure ⟨l, target, params, body, heq⟩⟩

theorem evalLambda_refused (hrest : rest.toList? = some operands) (hshape : ¬SpecialForm.lambda.Takes operands) :
    ∃ what : Malformation, what.Of .lambda ∧
      ∀ sub f e, evalSpecial sub f e .lambda rest operands = Run.raise (.malformed what) e := by
  cases operands with
  | nil => exact ⟨.lambdaOperands, .inl rfl, fun _ _ _ => evalLambda_malformed hrest⟩
  | cons params exprs =>
    obtain ⟨l₁, body, rfl, hbody⟩ := Value.toList?_eq_cons hrest
    obtain ⟨what, hform, hraise⟩ := makeClosure_malformed hbody fun h => hshape ⟨params, exprs, rfl, h⟩
    refine ⟨what, .inl hform, fun sub f e => ?_⟩
    simp only [evalSpecial, hraise, Run.raise_bind]

/-- A `let` finds out about its shape while it evaluates what it binds. -/
theorem evalBinding_refused (rest : Value) (hshape : ¬SpecialForm.binding.Takes operands) :
    ∃ what : Malformation, what.Of .binding ∧ ∀ sub f e, evalSpecial sub f e .binding rest operands =
      (do let _ ← (SpecialForm.binding.inits operands).mapM (sub f); Run.raise (.malformed what) e) := by
  cases operands with
  | nil => exact ⟨.bindingList, .inl rfl, fun _ _ _ => rfl⟩
  | cons bindings body =>
    rw [SpecialForm.inits]
    cases hitems : bindings.toList? with
    | none => exact ⟨.bindingList, .inl rfl, fun _ _ _ => evalBinding_malformed hitems⟩
    | some items =>
      by_cases hall : ∀ item ∈ items, item.IsBinding
      · have hbody : body = [] :=
          Classical.byContradiction fun hne => hshape ⟨bindings, items, body, rfl, hitems, hall, hne⟩
        subst hbody
        refine ⟨.bindingBody, .inl rfl, fun sub f e => ?_⟩
        simp only [evalSpecial, hitems]
        exact evalBindings_then _ items hall _
      · refine ⟨.bindingList, .inl rfl, fun sub f e => ?_⟩
        simp only [evalSpecial, hitems, evalBindings_malformed items hall, bind_assoc, Run.raise_bind]
        rfl

theorem evalSpecial_refused (form : SpecialForm) (hrest : rest.toList? = some operands)
    (hshape : ¬form.Takes operands) :
    ∃ what : Malformation, what.Of form ∧ ∀ sub f e, evalSpecial sub f e form rest operands =
      (do let _ ← (form.inits operands).mapM (sub f); Run.raise (.malformed what) e) := by
  cases form with
  | quote =>
    refine ⟨.quoteOperands, .inl rfl, fun _ _ _ => evalQuote_malformed fun hlength => hshape ?_⟩
    exact List.length_eq_one_iff.1 hlength
  | cond =>
    refine ⟨.condOperands, .inl rfl,
      fun _ _ _ => evalCond_malformed ⟨fun hlength => hshape ?_, fun hlength => hshape ?_⟩⟩
    · match operands, hlength with
      | [test, consequent], _ => exact ⟨test, consequent, .inl rfl⟩
    · match operands, hlength with
      | [test, consequent, alternative], _ => exact ⟨test, consequent, .inr ⟨alternative, rfl⟩⟩
  | define => exact evalDefine_refused hrest hshape
  | assign =>
    exact ⟨.assignOperands, .inl rfl, fun _ _ _ => evalAssign_malformed fun name value heq => hshape ⟨name, value, heq⟩⟩
  | lambda => exact evalLambda_refused hrest hshape
  | binding => exact evalBinding_refused rest hshape
  | sequence | conjunction | disjunction => exact absurd trivial hshape

end Forms

/-- **A form of the wrong shape is refused**, if there is room for one level: with an error that speaks of the form and
blames it.  Where it has nothing to evaluate all the same, that is all that happens, and the store is left as it was.
That is so with all forms but `let`; a `let` evaluates what its leading bindings of the right shape bind, one level
deeper and in their order, and is refused only if all of them come to a value. -/
theorem malformed_form_is_refused (limit d : Nat) (f : FrameId) (e : Value) (s : Store) (form : SpecialForm)
    (operands : List Value) (hd : d < limit) (he : e.toList? = some (.sym form.name :: operands))
    (hshape : ¬form.Takes operands) :
    ∃ what : Malformation, what.Of form ∧
      (form.inits operands = [] →
        ∀ fuel, evaluate limit (fuel + 1) f e ⟨s, d⟩ = Run.ended (.error ⟨.malformed what, e⟩) ⟨s, d⟩) ∧
      ∀ fuel, evaluate limit (fuel + 1) f e ⟨s, d⟩ =
        descend limit (fun f e => do
          let _ ← (form.inits operands).mapM (evaluate limit fuel f)
          Run.raise (.malformed what) e) f e ⟨s, d⟩ := by
  obtain ⟨l, rest, -, hrest, hround⟩ := evalRound_special form he
  obtain ⟨what, hform, hspecial⟩ := evalSpecial_refused form hrest hshape
  have hrounds (fuel : Nat) (m : Machine) : evalRounds limit (fuel + 1) f e m =
      (do let _ ← (form.inits operands).mapM (evaluate limit fuel f); Run.raise (.malformed what) e : Run Value) m := by
    rw [evalRounds_succ, hround, hspecial, bind_assoc]
    rfl
  have hdescend (fuel : Nat) : evaluate limit (fuel + 1) f e ⟨s, d⟩ =
      descend limit (fun f e => do
        let _ ← (form.inits operands).mapM (evaluate limit fuel f)
        Run.raise (.malformed what) e) f e ⟨s, d⟩ := by
    rw [evaluate, descend, descend, hrounds]
  refine ⟨what, hform, fun hinits fuel => ?_, hdescend⟩
  rw [hdescend, hinits]
  exact descend_of_lt hd rfl

/-- `(define (f #t) (set! x #f))` has no symbol for a parameter; nothing is assigned. -/
theorem parameter_must_be_a_symbol :
    let form (items : List Value) : Value := items.foldr (.pair 0) .nil
    let operands := [form [.sym "f", .bool true], form [.sym "set!", .sym "x", .bool false]]
    let e := form (.sym "define" :: operands)
    let store : Store := { frames := #[{ bindings := [("x", .bool true)] }] }
    0 < 1 ∧ e.toList? = some (.sym "define" :: operands) ∧ ¬SpecialForm.define.Takes operands ∧
    ∃ what : Malformation, what.Of .define ∧
      ∀ fuel, evaluate 1 (fuel + 1) 0 e ⟨store, 0⟩ = Run.ended (.error ⟨.malformed what, e⟩) ⟨store, 0⟩ := by
  intro form operands e store
  have hshape : ¬SpecialForm.define.Takes operands := by
    rintro (⟨name, value, heq⟩ | ⟨l, name, params, body, heq, hparams, -⟩)
    · exact Value.noConfusion (List.cons.inj heq).1
    · cases (List.cons.inj heq).1
      cases hparams.1
  obtain ⟨what, hform, hrefused, -⟩ := malformed_form_is_refused 1 0 0 e store .define operands (by decide) rfl hshape
  exact ⟨by decide, rfl, hshape, what, hform, hrefused rfl⟩

/-- `(let ((y (set! x #f))))` has no body and is refused for that, but it has assigned to `x`: its frame is not left as
it was. -/
theorem let_without_body_assigns :
    let form (items : List Value) : Value := items.foldr (.pair 0) .nil
    let operands := [form [form [.sym "y", form [.sym "set!", .sym "x", .bool false]]]]
    let e := form (.sym "let" :: operands)
    let binding (b : Bool) : Store := { frames := #[{ bindings := [("x", .bool b)] }] }
    e.toList? = some (.sym "let" :: operands) ∧ ¬SpecialForm.binding.Takes operands ∧
    evaluate 9 9 0 e ⟨binding true, 0⟩ = Run.ended (.error ⟨.malformed .bindingBody, e⟩) ⟨binding false, 0⟩ ∧
    (binding false).lookup 0 "x" = some (.bool false) ∧ (binding true).lookup 0 "x" = some (.bool true) := by
  intro form operands e binding
  refine ⟨rfl, ?_, by with_unfolding_all rfl, by with_unfolding_all rfl, by with_unfolding_all rfl⟩
  rintro ⟨bindings, items, body, heq, -, -, hne⟩
  exact hne (List.cons.inj heq).2.symm

end LispSession
