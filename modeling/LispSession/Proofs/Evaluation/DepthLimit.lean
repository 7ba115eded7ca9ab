import LispSession.Proofs.Evaluation.Comparison
/-!
# A lower limit only cuts evaluation short

Evaluate the same expression twice with the same fuel, under a lower and under a higher limit on nesting.  Nothing looks
at the level but `descend`, so the two runs agree step by step until the lower limit is reached; and from there on the
one below does nothing but end, as no rule catches an error.  `Cuts` says so of two computations.
-/
namespace LispSession

/-- A computation has gone over the limit. -/
def OverLimit {α : Type} (limit : Nat) (result : EStateM.Result Halt Machine α) : Prop :=
  ∃ blame m, result = .error (.raised ⟨.recursionLimit limit, blame⟩) m

/-- The first computation goes over the lower limit, or does what the second one does, which stays within the higher
limit. -/
def Cuts {α : Type} (lower higher : Nat) (x y : Run α) : Prop :=
  ∀ m, OverLimit lower (x m) ∨ x m = y m ∧ ¬OverLimit higher (y m)

namespace Cuts

variable {α β : Type} {lower higher : Nat}

theorem same {x : Run α} (h : ∀ m, ¬OverLimit higher (x m)) : Cuts lower higher x x := fun m => .inr ⟨rfl, h m⟩

theorem pure (a : α) : Cuts lower higher (Pure.pure a) (Pure.pure a) := same fun m ⟨_, _, h⟩ => by cases h

theorem withStore (f : Store → α × Store) : Cuts lower higher (Run.withStore f) (Run.withStore f) :=
  same fun m ⟨_, _, h⟩ => by cases h

theorem get : Cuts lower higher MonadState.get MonadState.get := same fun m ⟨_, _, h⟩ => by cases h

theorem unfinished : Cuts (α := α) lower higher (throw .unfinished) (throw .unfinished) :=
  same fun m ⟨_, _, h⟩ => by cases h

theorem raise (error : EvalError) (blame : Value) (h : ∀ n, error ≠ .recursionLimit n) :
    Cuts (α := α) lower higher (Run.raise error blame) (Run.raise error blame) := by
  refine same fun m ⟨_, _, heq⟩ => ?_
  cases heq
  exact h higher rfl

/-- What comes after a computation that has gone over the limit is never begun. -/
theorem bind {x y : Run α} {k k' : α → Run β} (hx : Cuts lower higher x y) (hk : ∀ a, Cuts lower higher (k a) (k' a)) :
    Cuts lower higher (x >>= k) (y >>= k') := by
  intro m
  obtain ⟨blame, m', hover⟩ | ⟨hsame, hwithin⟩ := hx m
  · exact .inl ⟨blame, m', Run.bind_of_error hover⟩
  · rcases hy : y m with ⟨a, m'⟩ | ⟨halt, m'⟩
    · rw [Run.bind_of_ok (hsame.trans hy), Run.bind_of_ok hy]
      exact hk a m'
    · rw [Run.bind_of_error (hsame.trans hy), Run.bind_of_error hy]
      refine .inr ⟨rfl, ?_⟩
      rintro ⟨blame, m'', heq⟩
      cases heq
      exact hwithin ⟨blame, m', hy⟩

/-- The rules of evaluation keep to it. -/
def comparison (lower higher : Nat) : Comparison where
  rel := Cuts lower higher
  pure := pure
  get := get
  withStore := withStore
  raise := raise
  unfinished := unfinished
  bind := bind

end Cuts

/-- Subexpressions are cut short at most. -/
def CutsAll (lower higher : Nat) (sub sub' : Eval) : Prop := ∀ f e, Cuts lower higher (sub f e) (sub' f e)

/-! ## Levels and rounds -/

/-- This is the one place where the level is looked at. -/
theorem descend_cuts {lower higher : Nat} (hle : lower ≤ higher) {eval eval' : Eval}
    (h : CutsAll lower higher eval eval') :
    CutsAll lower higher (descend lower eval) (descend higher eval') := by
  intro f e m
  by_cases hlow : lower ≤ m.depth
  · exact .inl ⟨e, m, if_pos hlow⟩
  · have hhigh : ¬higher ≤ m.depth := by omega
    unfold descend
    rw [if_neg hlow, if_neg hhigh]
    obtain ⟨blame, m', hover⟩ | ⟨hsame, hwithin⟩ := h f e { m with depth := m.depth + 1 }
    · rw [hover]
      exact .inl ⟨blame, _, rfl⟩
    · rw [hsame]
      refine .inr ⟨rfl, ?_⟩
      rcases hy : eval' f e { m with depth := m.depth + 1 } with ⟨v, m'⟩ | ⟨halt, m'⟩
      · rintro ⟨_, _, heq⟩
        cases heq
      · rintro ⟨blame, _, heq⟩
        cases heq
        exact hwithin ⟨blame, m', hy⟩

theorem evalRounds_cuts {lower higher : Nat} (hle : lower ≤ higher) (fuel : Nat) :
    CutsAll lower higher (evalRounds lower fuel) (evalRounds higher fuel) := by
  rw [evalRounds_eq_evalWith, evalRounds_eq_evalWith]
  exact Comparison.evalWith (fun _ => Cuts.comparison lower higher) Comparison.evalRound (descend_cuts hle) fuel 0

/-- **Evaluation under a lower limit is cut short at most.** -/
theorem evaluate_cuts {lower higher : Nat} (hle : lower ≤ higher) (fuel : Nat) :
    CutsAll lower higher (evaluate lower fuel) (evaluate higher fuel) := descend_cuts hle (evalRounds_cuts hle fuel)

/-- An evaluation that goes over the limit comes back to the level it began on. -/
theorem evaluate_overLimit {limit fuel d : Nat} {f : FrameId} {e : Value} {s : Store}
    (h : OverLimit limit (evaluate limit fuel f e ⟨s, d⟩)) : ∃ blame s',
      evaluate limit fuel f e ⟨s, d⟩ = Run.ended (.error ⟨.recursionLimit limit, blame⟩) ⟨s', d⟩ := by
  obtain ⟨blame, m, hover⟩ := h
  obtain ⟨m', hm⟩ | ⟨o, s', hended, -⟩ := evaluate_yields limit fuel d f e s
  · cases hover.symm.trans hm
  · refine ⟨blame, s', ?_⟩
    rw [hended] at hover ⊢
    cases o with
    | ok v => cases hover
    | error r => cases hover; rfl

/-- **The limit on nesting only ever cuts evaluation short.**  What comes to an end under a limit, other than by going
over it, comes to the same end under a higher one, with the same outcome and the same store.  And what goes over the
higher limit also goes over the lower one.  Both runs need the same fuel. -/
theorem limit_only_cuts_short {lower higher : Nat} (hle : lower ≤ higher) (fuel : Nat) (f : FrameId)
    (e : Value) (s : Store) :
    (∀ o s', evaluate lower fuel f e ⟨s, 0⟩ = Run.ended o ⟨s', 0⟩ →
      (∀ blame, o ≠ .error ⟨.recursionLimit lower, blame⟩) →
      evaluate higher fuel f e ⟨s, 0⟩ = Run.ended o ⟨s', 0⟩) ∧
    (∀ blame s', evaluate higher fuel f e ⟨s, 0⟩ = Run.ended (.error ⟨.recursionLimit higher, blame⟩) ⟨s', 0⟩ →
      ∃ blame' s'', evaluate lower fuel f e ⟨s, 0⟩ = Run.ended (.error ⟨.recursionLimit lower, blame'⟩) ⟨s'', 0⟩) := by
  obtain hover | ⟨hsame, hwithin⟩ := evaluate_cuts hle fuel f e ⟨s, 0⟩
  · refine ⟨fun o s' hended hother => ?_, fun _ _ _ => evaluate_overLimit hover⟩
    obtain ⟨blame, s'', heq⟩ := evaluate_overLimit hover
    exact absurd (Run.ended_inj (hended.symm.trans heq)).1 (hother blame)
  · refine ⟨fun o s' hended _ => hsame ▸ hended, fun blame s' hended => ?_⟩
    exact absurd ⟨blame, _, hended⟩ hwithin

/-- `(set! x (if (if #t #t) #f))` needs four levels: it assigns under a limit of four, and so under one of five; it
fails under a limit of three, and so under one of one. -/
theorem assignment_needs_four_levels :
    let form (items : List Value) : Value := items.foldr (.pair 0) .nil
    let e := form [.sym "set!", .sym "x", form [.sym "if", form [.sym "if", .bool true, .bool true], .bool false]]
    let binding (b : Bool) : Store := { frames := #[{ bindings := [("x", .bool b)] }] }
    evaluate 4 9 0 e ⟨binding true, 0⟩ = Run.ended (.ok (.bool false)) ⟨binding false, 0⟩ ∧
    evaluate 5 9 0 e ⟨binding true, 0⟩ = Run.ended (.ok (.bool false)) ⟨binding false, 0⟩ ∧
    evaluate 3 9 0 e ⟨binding true, 0⟩ = Run.ended (.error ⟨.recursionLimit 3, .bool true⟩) ⟨binding true, 0⟩ ∧
    ∃ blame s, evaluate 1 9 0 e ⟨binding true, 0⟩ = Run.ended (.error ⟨.recursionLimit 1, blame⟩) ⟨s, 0⟩ := by
  intro form e binding
  have four : evaluate 4 9 0 e ⟨binding true, 0⟩ = Run.ended (.ok (.bool false)) ⟨binding false, 0⟩ := by
    with_unfolding_all rfl
  have three : evaluate 3 9 0 e ⟨binding true, 0⟩ =
      Run.ended (.error ⟨.recursionLimit 3, .bool true⟩) ⟨binding true, 0⟩ := rfl
  have five := (limit_only_cuts_short (show 4 ≤ 5 by decide) 9 0 e (binding true)).1 _ _ four fun blame h => by cases h
  have one := (limit_only_cuts_short (show 1 ≤ 3 by decide) 9 0 e (binding true)).2 _ _ three
  exact ⟨four, five, three, one⟩

end LispSession
