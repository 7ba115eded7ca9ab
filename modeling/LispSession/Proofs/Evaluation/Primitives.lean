import LispSession.Primitive.Call
/-!
# What primitives answer

A primitive fails on the number of its arguments, on the kind of one of them, on a division or on demand, and in no
other way (`Primitive.call_failure`).  In particular it knows of no names, no forms and no limit on nesting.  Otherwise
it answers with a number, a truth value, a part of an argument, or a chain of arguments (`Primitive.call_made`).

What a primitive does has no meaning if there are fewer arguments than it asks for by position
(`Primitive.run_eq_stuck_iff`).  No call comes to that, because its arity allows no fewer (`Primitive.call_ne_stuck`).
-/
namespace LispSession

/-! ## Arguments by position -/

theorem Answer.ofNumber_ne_stuck (x : Except EvalError Float) : ofNumber x ≠ .stuck := by cases x <;> nofun

theorem Answer.ofTruth_ne_stuck (x : Except EvalError Bool) : ofTruth x ≠ .stuck := by cases x <;> nofun

namespace Primitive

/-- How many arguments a primitive asks for by position.  Further ones it takes as they come. -/
def needs : Primitive → Nat
  | .cons | .same | .equal => 2
  | .subtract | .divide | .car | .cdr | .isNull | .isPair | .isNumber | .isSymbol | .isString | .isProcedure | .not => 1
  | .add | .multiply | .equals | .less | .greater | .lessOrEqual | .greaterOrEqual | .list | .error => 0

theorem test_eq_stuck_iff {holds : Value → Bool} {args : List Value} : test holds args = .stuck ↔ args.length < 1 := by
  cases args <;> simp [test]

theorem component_eq_stuck_iff {p : Primitive} {pick : Value → Value → Value} {args : List Value} :
    p.component pick args = .stuck ↔ args.length < 1 := by
  rcases args with _ | ⟨v, vs⟩
  · simp [component]
  · cases v <;> simp [component]

/-- **A primitive is stuck exactly if an argument is missing that it asks for by position.** -/
theorem run_eq_stuck_iff (p : Primitive) (args : List Value) : p.run args = .stuck ↔ args.length < p.needs := by
  cases p with
  | add | multiply => exact iff_of_false (Answer.ofNumber_ne_stuck _) (Nat.not_lt_zero _)
  | equals | less | greater | lessOrEqual | greaterOrEqual =>
    exact iff_of_false (Answer.ofTruth_ne_stuck _) (Nat.not_lt_zero _)
  | list | error => exact iff_of_false nofun (Nat.not_lt_zero _)
  | subtract | divide =>
    rcases args with _ | ⟨v, _ | ⟨w, vs⟩⟩
    · exact iff_of_true rfl Nat.one_pos
    · exact iff_of_false (Answer.ofNumber_ne_stuck _) (by simp [needs])
    · exact iff_of_false (Answer.ofNumber_ne_stuck _) (by simp [needs])
  | car | cdr => exact component_eq_stuck_iff
  | isNull | isPair | isNumber | isSymbol | isString | isProcedure | not => exact test_eq_stuck_iff
  | cons | same | equal => rcases args with _ | ⟨v, _ | ⟨w, vs⟩⟩ <;> simp [run, needs]

/-- No arity allows fewer arguments than are asked for by position. -/
theorem needs_le_of_accepts {p : Primitive} {count : Nat} (h : p.arity.accepts count = true) : p.needs ≤ count := by
  cases p <;> simp_all [arity, Arity.accepts, needs]

/-- **A primitive looks at no argument that the check on their number has not seen.** -/
theorem call_ne_stuck (p : Primitive) (args : List Value) : p.call args ≠ .stuck := by
  unfold call
  split
  · next h => exact fun hstuck => Nat.not_lt.2 (needs_le_of_accepts h) ((run_eq_stuck_iff p args).1 hstuck)
  · nofun

end Primitive

/-! ## Errors -/

/-- The errors that a primitive can come to. -/
def EvalError.OfPrimitive : EvalError → Prop
  | .unexpectedArity _ _ _ | .operandType _ _ _ | .divisionByZero | .user _ => True
  | _ => False

/-- The error of a computation, if there is one, is that of a primitive. -/
def FailsAsPrimitive {α : Type} (x : Except EvalError α) : Prop := ∀ error, x = .error error → error.OfPrimitive

namespace FailsAsPrimitive

variable {α β : Type}

theorem ok (a : α) : FailsAsPrimitive (.ok a) := nofun

theorem error {error : EvalError} (h : error.OfPrimitive) : FailsAsPrimitive (α := α) (.error error)
  | _, rfl => h

theorem bind {x : Except EvalError α} {k : α → Except EvalError β} (hx : FailsAsPrimitive x)
    (hk : ∀ a, FailsAsPrimitive (k a)) : FailsAsPrimitive (x >>= k) := by
  cases x with
  | ok a => exact hk a
  | error e => exact error (hx e rfl)

theorem map {x : Except EvalError α} (hx : FailsAsPrimitive x) (f : α → β) : FailsAsPrimitive (x.map f) := by
  cases x with
  | ok a => exact ok (f a)
  | error e => exact error (hx e rfl)

theorem number (p : Primitive) (v : Value) : FailsAsPrimitive (p.number v) := by
  cases v with
  | num x => exact ok x
  | _ => exact error trivial

theorem numbers (p : Primitive) (args : List Value) : FailsAsPrimitive (p.numbers args) := by
  unfold Primitive.numbers
  induction args with
  | nil => exact ok []
  | cons v vs ih =>
    rw [List.mapM_cons]
    exact (number p v).bind fun x => ih.bind fun xs => ok (x :: xs)

theorem divideBy (vs : List Value) : ∀ quotient : Float, FailsAsPrimitive (Primitive.divideBy quotient vs) := by
  induction vs with
  | nil => exact ok
  | cons v vs ih =>
    intro quotient
    refine (number .divide v).bind fun divisor => ?_
    split
    · exact error trivial
    · exact ih _

end FailsAsPrimitive

namespace Primitive

/-- The answer of a primitive, if it is an error, is one of a primitive. -/
def Answers (answer : Answer) : Prop := ∀ error, answer = .failure error → error.OfPrimitive

theorem Answers.ofNumber {x : Except EvalError Float} (hx : FailsAsPrimitive x) : Answers (.ofNumber x) := by
  cases x with
  | ok a => nofun
  | error e => exact fun _ h => Answer.failure.inj h ▸ hx e rfl

theorem Answers.compare (p : Primitive) (holds : Float → Float → Bool) (args : List Value) :
    Answers (p.compare holds args) := by
  unfold Primitive.compare
  rcases h : (p.numbers args).map (betweenNeighbours holds) with e | b
  · exact fun _ heq => Answer.failure.inj heq ▸ (FailsAsPrimitive.numbers p args).map _ e h
  · nofun

theorem Answers.test (holds : Value → Bool) (args : List Value) : Answers (Primitive.test holds args) := by
  cases args <;> nofun

theorem Answers.component (p : Primitive) (pick : Value → Value → Value) (args : List Value) :
    Answers (p.component pick args) := by
  rcases args with _ | ⟨v, vs⟩
  · nofun
  · cases v with
    | pair l front back => nofun
    | _ => exact fun _ h => Answer.failure.inj h ▸ trivial

/-- **A primitive fails on the number of its arguments, on their kinds, on a division or on demand.** -/
theorem call_failure {p : Primitive} {args : List Value} {error : EvalError} (h : p.call args = .failure error) :
    error.OfPrimitive := by
  refine (?_ : Answers (p.call args)) error h
  unfold call
  split
  · cases p with
    | add | multiply => exact .ofNumber ((FailsAsPrimitive.numbers _ args).map _)
    | subtract =>
      rcases args with _ | ⟨v, _ | ⟨w, vs⟩⟩
      · nofun
      · exact .ofNumber ((FailsAsPrimitive.number _ v).map _)
      · exact .ofNumber ((FailsAsPrimitive.number _ v).bind fun x =>
          (FailsAsPrimitive.numbers _ (w :: vs)).bind fun xs => .ok _)
    | divide =>
      rcases args with _ | ⟨v, _ | ⟨w, vs⟩⟩
      · nofun
      · exact .ofNumber (FailsAsPrimitive.divideBy [v] 1)
      · exact .ofNumber ((FailsAsPrimitive.number _ v).bind fun x => FailsAsPrimitive.divideBy (w :: vs) x)
    | equals | less | greater | lessOrEqual | greaterOrEqual => exact .compare _ _ args
    | car | cdr => exact .component _ _ args
    | isNull | isPair | isNumber | isSymbol | isString | isProcedure | not => exact .test _ args
    | cons | same | equal =>
      rcases args with _ | ⟨v, _ | ⟨w, vs⟩⟩ <;> nofun
    | list => nofun
    | error => exact fun _ h => Answer.failure.inj h ▸ trivial
  · exact fun _ h => Answer.failure.inj h ▸ trivial

/-- No primitive goes over a limit on nesting. -/
theorem call_unnested (p : Primitive) (args : List Value) (n : Nat) : p.call args ≠ .failure (.recursionLimit n) :=
  fun h => call_failure h

end Primitive

/-! ## Values -/

/-- What an answer is made of has a property. -/
def Answer.Made (P : Value → Prop) : Answer → Prop
  | .value v => P v
  | .chain items tail => (∀ v ∈ items, P v) ∧ P tail
  | .failure _ | .stuck => True

/-- A property of all atoms that primitives make, and of the parts of a pair that has it. -/
structure Value.Inherits (P : Value → Prop) : Prop where
  nil : P .nil
  bool (b : Bool) : P (.bool b)
  num (x : Float) : P (.num x)
  parts {l : Label} {car cdr : Value} : P (.pair l car cdr) → P car ∧ P cdr

namespace Primitive

variable {P : Value → Prop} (hP : Value.Inherits P)

include hP

theorem made_ofNumber (x : Except EvalError Float) : (Answer.ofNumber x).Made P := by
  cases x with
  | ok x => exact hP.num x
  | error e => trivial

theorem made_ofTruth (x : Except EvalError Bool) : (Answer.ofTruth x).Made P := by
  cases x with
  | ok b => exact hP.bool b
  | error e => trivial

theorem made_test (holds : Value → Bool) (args : List Value) : (Primitive.test holds args).Made P := by
  cases args with
  | nil => trivial
  | cons v vs => exact hP.bool _

theorem made_component (p : Primitive) {pick : Value → Value → Value} (hpick : ∀ a b, pick a b = a ∨ pick a b = b)
    {args : List Value} (h : ∀ v ∈ args, P v) : (p.component pick args).Made P := by
  rcases args with _ | ⟨v, vs⟩
  · trivial
  · cases v with
    | pair l a b =>
      have hpair := hP.parts (h _ List.mem_cons_self)
      rcases hpick a b with heq | heq
      · exact (congrArg P heq).mpr hpair.1
      · exact (congrArg P heq).mpr hpair.2
    | _ => trivial

/-- **A primitive answers with an atom, a part of an argument, or a chain of arguments.** -/
theorem call_made {p : Primitive} {args : List Value} {answer : Answer} (hcall : p.call args = answer)
    (h : ∀ v ∈ args, P v) :
    answer.Made P := by
  subst hcall
  unfold call
  split
  · cases p with
    | add | multiply => exact made_ofNumber hP _
    | subtract | divide =>
      rcases args with _ | ⟨v, _ | ⟨w, vs⟩⟩
      · trivial
      · exact made_ofNumber hP _
      · exact made_ofNumber hP _
    | equals | less | greater | lessOrEqual | greaterOrEqual => exact made_ofTruth hP _
    | isNull | isPair | isNumber | isSymbol | isString | isProcedure | not => exact made_test hP _ _
    | car => exact made_component hP _ (fun _ _ => .inl rfl) h
    | cdr => exact made_component hP _ (fun _ _ => .inr rfl) h
    | same | equal =>
      rcases args with _ | ⟨v, _ | ⟨w, vs⟩⟩
      · trivial
      · trivial
      · exact hP.bool _
    | cons =>
      rcases args with _ | ⟨v, _ | ⟨w, vs⟩⟩
      · trivial
      · trivial
      · exact ⟨List.forall_mem_singleton.2 (h v (by simp)), h w (by simp)⟩
    | list => exact ⟨h, hP.nil⟩
    | error => trivial
  · trivial

end Primitive

end LispSession
