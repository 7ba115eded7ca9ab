import Mathlib.Data.List.Chain
import LispSession.Primitive.Call
/-!
# Arithmetic

What the primitives that compute with numbers come to (`Primitive.Computes`), and what they refuse: an argument that is
no number, and a zero to divide by (`Primitive.refusal?`).  Some compute while they check, others check all arguments
first; either way the error is that of the first argument to be refused, and there is a value if none is
(`Primitive.call_dichotomy`).
-/
namespace LispSession

namespace Primitive

/-- The primitives that compute with numbers. -/
def IsNumeric (p : Primitive) : Prop :=
  p ∈ [add, subtract, multiply, divide, equals, less, greater, lessOrEqual, greaterOrEqual]

instance (p : Primitive) : Decidable p.IsNumeric := inferInstanceAs (Decidable (p ∈ _))

/-- What a comparison asks of neighbours. -/
def relation? : Primitive → Option (Float → Float → Bool)
  | .equals => some fun a b => a == b
  | .less => some fun a b => a < b
  | .greater => some fun a b => b < a
  | .lessOrEqual => some fun a b => a ≤ b
  | .greaterOrEqual => some fun a b => b ≤ a
  | _ => none

/-- What a primitive makes of numbers. -/
inductive Computes : Primitive → List Float → Value → Prop
  | sum (xs : List Float) : Computes .add xs (.num (xs.foldl (· + ·) 0))
  | product (xs : List Float) : Computes .multiply xs (.num (xs.foldl (· * ·) 1))
  | negative (x : Float) : Computes .subtract [x] (.num (-x))
  | difference (x y : Float) (xs : List Float) : Computes .subtract (x :: y :: xs) (.num ((y :: xs).foldl (· - ·) x))
  | reciprocal (x : Float) : Computes .divide [x] (.num (1 / x))
  | quotient (x y : Float) (xs : List Float) : Computes .divide (x :: y :: xs) (.num ((y :: xs).foldl (· / ·) x))
  | comparison {p : Primitive} {holds : Float → Float → Bool} (asks : p.relation? = some holds)
      {xs : List Float} {b : Bool} (chain : b = true ↔ List.IsChain (fun x y => holds x y = true) xs) :
      Computes p xs (.bool b)

/-- Whether the argument in a place is a divisor: the only one is, and so are all but the first. -/
def divides (p : Primitive) (count place : Nat) : Bool := p == .divide && (count == 1 || place != 0)

/-- What an argument is refused for. -/
def complaint? (p : Primitive) (divisor : Bool) : Value → Option EvalError
  | .num x => if divisor && x == 0 then some .divisionByZero else none
  | v => some (.operandType p.name .number v.kind)

/-- What the argument in a place is refused for. -/
def refusal? (p : Primitive) (args : List Value) (place : Nat) : Option EvalError :=
  args[place]?.bind (p.complaint? (p.divides args.length place))

/-- The first argument to be refused is refused for this. -/
def Refuses (p : Primitive) (args : List Value) (e : EvalError) : Prop :=
  ∃ place, p.refusal? args place = some e ∧ ∀ earlier < place, p.refusal? args earlier = none

variable {p : Primitive} {args : List Value} {e e' : EvalError}

theorem Refuses.unique (h : p.Refuses args e) (h' : p.Refuses args e') : e = e' := by
  obtain ⟨place, hbad, hfirst⟩ := h
  obtain ⟨place', hbad', hfirst'⟩ := h'
  obtain hlt | rfl | hlt := Nat.lt_trichotomy place place'
  · cases (hfirst' place hlt).symm.trans hbad
  · exact Option.some.inj (hbad.symm.trans hbad')
  · cases (hfirst place' hlt).symm.trans hbad'

/-! ## One argument after the other -/

/-- The first of the arguments to be complained about, and the complaint. -/
def Stops (complain : Value → Option EvalError) (args : List Value) (e : EvalError) : Prop :=
  ∃ front v back, args = front ++ v :: back ∧ (∀ u ∈ front, complain u = none) ∧ complain v = some e

theorem Stops.here {complain : Value → Option EvalError} {v : Value} (h : complain v = some e) (vs : List Value) :
    Stops complain (v :: vs) e := ⟨[], v, vs, rfl, nofun, h⟩

theorem Stops.later {complain : Value → Option EvalError} {v : Value} {vs : List Value} (hv : complain v = none)
    (h : Stops complain vs e) :
    Stops complain (v :: vs) e := by
  obtain ⟨front, w, back, rfl, hfront, hw⟩ := h
  exact ⟨v :: front, w, back, rfl, List.forall_mem_cons.2 ⟨hv, hfront⟩, hw⟩

theorem number_of_complaint {v : Value} (h : p.complaint? false v = some e) : p.number v = .error e := by
  cases v with
  | num x => cases h
  | _ => cases h; rfl

/-- An argument that is not complained about is a number. -/
theorem exists_num {divisor : Bool} {v : Value} (h : p.complaint? divisor v = none) :
    ∃ x, v = .num x ∧ (divisor = true → (x == 0) = false) := by
  cases v with
  | num x =>
    refine ⟨x, rfl, fun hdivisor => ?_⟩
    rw [complaint?, hdivisor, Bool.true_and] at h
    cases hzero : x == 0 with
    | false => rfl
    | true => rw [hzero] at h; cases h
  | _ => cases h

theorem complaint?_num {divisor : Bool} {x : Float} (h : divisor = true → (x == 0) = false) :
    p.complaint? divisor (.num x) = none := by
  cases divisor with
  | false => rfl
  | true => rw [complaint?, h rfl]; rfl

theorem numbers_dichotomy (p : Primitive) (args : List Value) :
    (∃ xs : List Float, args = xs.map .num ∧ p.numbers args = .ok xs) ∨
    ∃ e, Stops (p.complaint? false) args e ∧ p.numbers args = .error e := by
  induction args with
  | nil => exact .inl ⟨[], rfl, rfl⟩
  | cons v vs ih =>
    rw [numbers, List.mapM_cons]
    cases hv : p.complaint? false v with
    | some e => exact .inr ⟨e, .here hv vs, by rw [number_of_complaint hv]; rfl⟩
    | none =>
      obtain ⟨x, rfl, -⟩ := exists_num hv
      obtain ⟨xs, rfl, hxs⟩ | ⟨e, hstops, he⟩ := ih
      · refine .inl ⟨x :: xs, rfl, ?_⟩
        rw [numbers] at hxs
        rw [hxs]
        rfl
      · refine .inr ⟨e, hstops.later hv, ?_⟩
        rw [numbers] at he
        rw [he]
        rfl

theorem divideBy_num (x dividend : Float) (vs : List Value) :
    divideBy dividend (.num x :: vs) = if x == 0 then .error .divisionByZero else divideBy (dividend / x) vs := rfl

theorem divideBy_dichotomy (args : List Value) (dividend : Float) :
    (∃ xs : List Float, args = xs.map .num ∧ (∀ x ∈ xs, (x == 0) = false) ∧
      divideBy dividend args = .ok (xs.foldl (· / ·) dividend)) ∨
      ∃ e, Stops (divide.complaint? true) args e ∧ divideBy dividend args = .error e := by
  induction args generalizing dividend with
  | nil => exact .inl ⟨[], rfl, nofun, rfl⟩
  | cons v vs ih =>
    cases v with
    | num x =>
      rw [divideBy_num]
      cases hzero : x == 0 with
      | true => exact .inr ⟨.divisionByZero, .here (by rw [complaint?, hzero]; rfl) vs, rfl⟩
      | false =>
        obtain ⟨xs, rfl, hall, hxs⟩ | ⟨e, hstops, he⟩ := ih (dividend / x)
        · exact .inl ⟨x :: xs, rfl, List.forall_mem_cons.2 ⟨hzero, hall⟩, hxs⟩
        · exact .inr ⟨e, hstops.later (complaint?_num fun _ => hzero), he⟩
    | _ => exact .inr ⟨_, .here rfl vs, rfl⟩

/-! ## What is refused -/

theorem refusal?_of_getElem? {place : Nat} {v : Value} (h : args[place]? = some v) :
    p.refusal? args place = p.complaint? (p.divides args.length place) v := by rw [refusal?, h, Option.bind_some]

theorem refusal?_eq_none_iff {place : Nat} : p.refusal? args place = none ↔
    ∀ v, args[place]? = some v → ∃ x, v = .num x ∧ (p.divides args.length place = true → (x == 0) = false) := by
  constructor
  · intro h v hv
    rw [refusal?_of_getElem? hv] at h
    exact exists_num h
  · intro h
    cases hv : args[place]? with
    | none => rw [refusal?, hv, Option.bind_none]
    | some v =>
      obtain ⟨x, rfl, hx⟩ := h v hv
      rw [refusal?_of_getElem? hv, complaint?_num hx]

/-- Behind arguments that are not refused, the first one to be complained about is the first to be refused. -/
theorem Refuses.of_stops {divisor : Bool} (before : List Value) {rest : List Value}
    (h : Stops (p.complaint? divisor) rest e)
    (hbefore : ∀ place < before.length, p.refusal? (before ++ rest) place = none)
    (hdivides : ∀ place, before.length ≤ place → p.divides (before ++ rest).length place = divisor) :
    p.Refuses (before ++ rest) e := by
  obtain ⟨front, v, back, rfl, hfront, hv⟩ := h
  refine ⟨before.length + front.length, ?_, fun earlier hearlier => ?_⟩
  · have hget : (before ++ (front ++ v :: back))[before.length + front.length]? = some v := by
      rw [List.getElem?_append_right (Nat.le_add_right ..), Nat.add_sub_cancel_left,
        List.getElem?_append_right (Nat.le_refl _), Nat.sub_self]
      rfl
    rw [refusal?_of_getElem? hget, hdivides _ (Nat.le_add_right ..), hv]
  · obtain hlt | hge := Nat.lt_or_ge earlier before.length
    · exact hbefore earlier hlt
    · have hin : earlier - before.length < front.length := by omega
      have hget : (before ++ (front ++ v :: back))[earlier]? = some front[earlier - before.length] := by
        rw [List.getElem?_append_right hge, List.getElem?_append_left hin, List.getElem?_eq_getElem hin]
      rw [refusal?_of_getElem? hget, hdivides earlier hge, hfront _ (List.getElem_mem hin)]

theorem divides_of_ne (hp : p ≠ .divide) (count place : Nat) : p.divides count place = false := by
  rw [divides, beq_eq_false_iff_ne.2 hp, Bool.false_and]

theorem Refuses.of_stops_ne (hp : p ≠ .divide) (h : Stops (p.complaint? false) args e) : p.Refuses args e :=
  .of_stops [] h (fun _ hlt => absurd hlt (Nat.not_lt_zero _)) fun place _ => divides_of_ne hp _ place

/-- Numbers are not refused, if none of them is a zero to divide by. -/
theorem refusal?_numbers {xs : List Float}
    (h : ∀ place x, xs[place]? = some x → p.divides xs.length place = true → (x == 0) = false)
    (place : Nat) : p.refusal? (xs.map .num) place = none := by
  rw [refusal?, List.getElem?_map, List.length_map]
  cases hx : xs[place]? with
  | none => rfl
  | some x => exact complaint?_num (p := p) (h place x hx)

theorem refusal?_numbers_ne (hp : p ≠ .divide) (xs : List Float) : ∀ place, p.refusal? (xs.map .num) place = none :=
  refusal?_numbers fun place x _ hdivides => by rw [divides_of_ne hp] at hdivides; cases hdivides

/-! ## What is computed -/

theorem betweenNeighbours_iff (holds : Float → Float → Bool) : ∀ xs : List Float,
    betweenNeighbours holds xs = true ↔ List.IsChain (fun x y => holds x y = true) xs
  | [] => by simp [betweenNeighbours]
  | [x] => by simp [betweenNeighbours]
  | x :: y :: xs => by
    rw [betweenNeighbours, Bool.and_eq_true, List.isChain_cons_cons, betweenNeighbours_iff holds (y :: xs)]

/-- The outcome of a call: what the numbers come to, or the complaint about the first argument to be refused. -/
inductive Outcome (p : Primitive) : List Value → Answer → Prop
  | value {xs : List Float} {v : Value} (fine : ∀ place, p.refusal? (xs.map .num) place = none)
      (computes : p.Computes xs v) :
      Outcome p (xs.map .num) (.value v)
  | failure {args : List Value} {e : EvalError} (refuses : p.Refuses args e) : Outcome p args (.failure e)

/-- A primitive that looks at all arguments first passes none of them over. -/
theorem Outcome.of_numbers (hp : p ≠ .divide) (answer : Except EvalError (List Float) → Answer) {f : List Float → Value}
    (hvalue : ∀ xs, answer (.ok xs) = .value (f xs)) (hfailure : ∀ e, answer (.error e) = .failure e)
    (hf : ∀ xs, p.Computes xs (f xs)) (args : List Value) : p.Outcome args (answer (p.numbers args)) := by
  obtain ⟨xs, rfl, hxs⟩ | ⟨e, hstops, he⟩ := p.numbers_dichotomy args
  · rw [hxs, hvalue]
    exact .value (refusal?_numbers_ne hp xs) (hf xs)
  · rw [he, hfailure]
    exact .failure (.of_stops_ne hp hstops)

theorem Outcome.ofNumber (hp : p ≠ .divide) {f : List Float → Float} (hf : ∀ xs, p.Computes xs (.num (f xs)))
    (args : List Value) :
    p.Outcome args (.ofNumber ((p.numbers args).map f)) :=
  .of_numbers hp (fun xs => .ofNumber (xs.map f)) (fun _ => rfl) (fun _ => rfl) hf args

theorem Outcome.compare {holds : Float → Float → Bool} (asks : p.relation? = some holds) (args : List Value) :
    p.Outcome args (p.compare holds args) := by
  have hp : p ≠ .divide := by
    rintro rfl
    cases asks
  exact .of_numbers hp (fun xs => .ofTruth (xs.map (betweenNeighbours holds))) (fun _ => rfl) (fun _ => rfl)
    (fun xs => .comparison asks (betweenNeighbours_iff holds xs)) args

theorem run_subtract (v w : Value) (ws : List Value) :
    run .subtract (v :: w :: ws) = .ofNumber (do
      let first ← number .subtract v
      let rest ← numbers .subtract (w :: ws)
      return rest.foldl (· - ·) first) := rfl

theorem run_divide (v w : Value) (ws : List Value) :
    run .divide (v :: w :: ws) = .ofNumber (do
      let first ← number .divide v
      divideBy first (w :: ws)) := rfl

theorem Outcome.subtract {args : List Value} (hargs : args ≠ []) : Outcome .subtract args (run .subtract args) := by
  have hp : Primitive.subtract ≠ .divide := by decide
  obtain ⟨v, vs, rfl⟩ := List.exists_cons_of_ne_nil hargs
  cases hv : Primitive.subtract.complaint? false v with
  | some e =>
    have answer : run .subtract (v :: vs) = .failure e := by
      cases vs with
      | nil => rw [run, number_of_complaint hv]; rfl
      | cons w ws => rw [run_subtract, number_of_complaint hv]; rfl
    exact answer ▸ .failure (.of_stops_ne hp (.here hv vs))
  | none =>
    obtain ⟨x, rfl, -⟩ := exists_num hv
    cases vs with
    | nil => exact .value (refusal?_numbers_ne hp [x]) (.negative x)
    | cons w ws =>
      rw [run_subtract, number]
      obtain ⟨xs, hws, hxs⟩ | ⟨e, hstops, he⟩ := Primitive.subtract.numbers_dichotomy (w :: ws)
      · rw [hxs]
        cases xs with
        | nil => cases hws
        | cons y ys =>
          rw [hws]
          exact .value (refusal?_numbers_ne hp (x :: y :: ys)) (.difference x y ys)
      · rw [he]
        exact .failure (.of_stops_ne hp (hstops.later hv))

theorem Outcome.divide {args : List Value} (hargs : args ≠ []) : Outcome .divide args (run .divide args) := by
  match args, hargs with
  | [v], _ =>
    rw [run]
    obtain ⟨xs, hv, hall, hxs⟩ | ⟨e, hstops, he⟩ := divideBy_dichotomy [v] 1
    · rw [hxs, hv]
      match xs, hv with
      | [x], _ => exact .value (refusal?_numbers fun place y hy _ => hall y (List.mem_of_getElem? hy)) (.reciprocal x)
    · rw [he]
      exact .failure (.of_stops [] hstops (fun _ hlt => absurd hlt (Nat.not_lt_zero _)) fun _ _ => rfl)
  | v :: w :: ws, _ =>
    cases hv : Primitive.divide.complaint? false v with
    | some e =>
      rw [run_divide, number_of_complaint hv]
      exact .failure ⟨0, hv, fun _ hlt => absurd hlt (Nat.not_lt_zero _)⟩
    | none =>
      obtain ⟨x, rfl, -⟩ := exists_num hv
      rw [run_divide, number]
      dsimp only [bind, Except.bind]
      obtain ⟨xs, hws, hall, hxs⟩ | ⟨e, hstops, he⟩ := divideBy_dichotomy (w :: ws) x
      · rw [hxs]
        match xs, hws with
        | y :: ys, hws =>
          rw [hws]
          refine @Outcome.value .divide (x :: y :: ys) _ (refusal?_numbers fun place z hz hdivides => ?_)
            (.quotient x y ys)
          -- The first argument is no divisor, as there are others.
          cases place with
          | zero => cases hdivides
          | succ place => exact hall z (List.mem_of_getElem? hz)
      · rw [he]
        refine .failure (.of_stops [.num x] hstops (fun place hlt => ?_) fun place hle => ?_)
        · obtain rfl : place = 0 := Nat.lt_one_iff.1 hlt
          exact hv
        · cases place with
          | zero => cases hle
          | succ place => rfl

/-- **A call either comes to the value of its numbers or fails for the first argument to be refused.** -/
theorem outcome_call (hp : p.IsNumeric) (hargs : p.arity.accepts args.length = true) :
    p.Outcome args (p.call args) := by
  have some_args (hone : p.arity = .atLeast 1) : args ≠ [] := by
    rintro rfl
    rw [hone] at hargs
    cases hargs
  rw [call, if_pos hargs]
  cases p with
  | add => exact .ofNumber (by decide) .sum args
  | multiply => exact .ofNumber (by decide) .product args
  | subtract => exact .subtract (some_args rfl)
  | divide => exact .divide (some_args rfl)
  | equals | less | greater | lessOrEqual | greaterOrEqual => exact .compare rfl args
  | _ => exact absurd hp (by decide)

end Primitive

/-- **Arithmetic folds from the left and fails for the first bad operand.**  A call has a value if and only if all
arguments are numbers and none that is divided by is zero, which is then what the numbers come to; and it fails with an
error if and only if that is what the first argument to be refused is refused for. -/
theorem arithmetic_fails_for_first_refused {p : Primitive} {args : List Value} (hp : p.IsNumeric)
    (hargs : p.arity.accepts args.length = true) :
    ((∃ v, p.call args = .value v) ↔
      ∀ place v, args[place]? = some v → ∃ x, v = .num x ∧ (p.divides args.length place = true → (x == 0) = false)) ∧
    (∀ v, p.call args = .value v → ∃ xs : List Float, args = xs.map .num ∧ p.Computes xs v) ∧
    (∀ e, p.call args = .failure e ↔ p.Refuses args e) := by
  have outcome := Primitive.outcome_call hp hargs
  generalize p.call args = answer at outcome
  cases outcome with
  | value fine computes =>
    refine ⟨⟨fun _ place => Primitive.refusal?_eq_none_iff.1 (fine place), fun _ => ⟨_, rfl⟩⟩, fun v hv => ?_,
      fun e => ⟨nofun, fun h => ?_⟩⟩
    · cases hv
      exact ⟨_, rfl, computes⟩
    · obtain ⟨place, hbad, -⟩ := h
      cases (fine place).symm.trans hbad
  | failure refuses =>
    refine ⟨⟨nofun, fun h => ?_⟩, nofun, fun e => ⟨fun he => ?_, fun h => ?_⟩⟩
    · obtain ⟨place, hbad, -⟩ := refuses
      cases (Primitive.refusal?_eq_none_iff.2 (h place)).symm.trans hbad
    · cases he
      exact refuses
    · rw [refuses.unique h]

/-- The third operand is reported although the first two are out of order; and a zero to divide by comes before it,
which the first operand is not. -/
theorem later_operand_is_reported :
    Primitive.less.call [.num 3, .num 1, .sym "x"] = .failure (.operandType "<" .number .symbol) ∧
      Primitive.divide.call [.num 0, .num 0, .sym "x"] = .failure .divisionByZero :=
  ⟨((arithmetic_fails_for_first_refused (by decide) rfl).2.2 _).2 ⟨2, rfl, by decide⟩,
    ((arithmetic_fails_for_first_refused (by decide) rfl).2.2 _).2 ⟨1, rfl, by decide⟩⟩

end LispSession
