import LispSession.Proofs.Evaluation.Discipline
/-!
# Levels do not leak

Evaluation counts the level it is on up before a subexpression and down after it, whatever has become of the
subexpression in between.  So it comes back to the level it began on, and on the way there it is never on a lower level,
nor above the limit if it did not begin there.

The levels on the way do not show in what an evaluation comes to.  `evaluateBetween` is the same evaluator with an eye
on the level: it is stuck as soon as the level is another one than is allowed.  That it does the same as `evaluate` says
that the level never is another one.
-/
namespace LispSession

/-! ## Watching the level -/

/-- What a result holds: an outcome and a machine. -/
def Run.outcome {α : Type} : EStateM.Result Halt Machine α → Except Halt α × Machine
  | .ok a m => (.ok a, m)
  | .error halt m => (.error halt, m)

theorem Run.outcome_back {α : Type} (r : Except Halt α) (m : Machine) : outcome (back r m) = (r, m) := by
  cases r <;> rfl

/-- Evaluate, with an eye on the level.  There is no going on if it is not between `low` and `high`, before or after. -/
def watched (low high : Nat) (eval : Eval) : Eval := fun f e m =>
  let (r, m') := Run.outcome (eval f e m)
  if (low ≤ m.depth ∧ m.depth ≤ high) ∧ low ≤ m'.depth ∧ m'.depth ≤ high then Run.back r m' else .error .stuck m'

/-- `descend`, with an eye on the level: on the one before, and on the next one. -/
def descendBetween (low high limit : Nat) (eval : Eval) : Eval :=
  watched low high (descend limit (watched low high eval))

/-- `evaluate`, with an eye on the level wherever it may have changed. -/
def evaluateBetween (low high limit fuel : Nat) : Eval :=
  descendBetween low high limit (evalWith evalRound (descendBetween low high limit) fuel)

/-- From level `d`, if it is not too high, two computations do the same and come back to it, and neither is stuck. -/
def AgreeAt {α : Type} (high d : Nat) (x y : Run α) : Prop :=
  d ≤ high → ∀ s, ∃ r s', r ≠ .error .stuck ∧ x ⟨s, d⟩ = Run.back r ⟨s', d⟩ ∧ y ⟨s, d⟩ = Run.back r ⟨s', d⟩

namespace AgreeAt

section Rules

variable {α β : Type} {high d : Nat}

theorem same {x : Run α} (h : ∀ s, ∃ r s', r ≠ .error .stuck ∧ x ⟨s, d⟩ = Run.back r ⟨s', d⟩) : AgreeAt high d x x := by
  intro _ s
  obtain ⟨r, s', hr, hx⟩ := h s
  exact ⟨r, s', hr, hx, hx⟩

theorem bind {x y : Run α} {k k' : α → Run β} (hx : AgreeAt high d x y) (hk : ∀ a, AgreeAt high d (k a) (k' a)) :
    AgreeAt high d (x >>= k) (y >>= k') := by
  intro hd s
  obtain ⟨r, s₁, hr, hx, hy⟩ := hx hd s
  cases r with
  | ok a =>
    obtain ⟨r', s', hr', hk, hk'⟩ := hk a hd s₁
    exact ⟨r', s', hr', (Run.bind_of_ok hx).trans hk, (Run.bind_of_ok hy).trans hk'⟩
  | error halt =>
    refine ⟨.error halt, s₁, fun heq => hr ?_, Run.bind_of_error hx, Run.bind_of_error hy⟩
    cases heq
    rfl

/-- The rules of evaluation do not touch the level. -/
def comparison (high d : Nat) : Comparison where
  rel := AgreeAt high d
  pure a := same fun s => ⟨.ok a, s, nofun, rfl⟩
  get := same fun s => ⟨.ok ⟨s, d⟩, s, nofun, rfl⟩
  withStore f := same fun s => ⟨.ok (f s).1, (f s).2, nofun, rfl⟩
  raise error blame _ := same fun s => ⟨.error (.raised ⟨error, blame⟩), s, nofun, rfl⟩
  unfinished := same fun s => ⟨.error .unfinished, s, nofun, rfl⟩
  bind := bind

end Rules

variable {low high limit d : Nat} {eval eval' : Eval} {f : FrameId} {e : Value}

theorem watched (hlow : low ≤ d) (h : AgreeAt high d (eval f e) (eval' f e)) :
    AgreeAt high d (watched low high eval f e) (eval' f e) := by
  intro hhigh s
  obtain ⟨r, s', hr, hx, hy⟩ := h hhigh s
  refine ⟨r, s', hr, ?_, hy⟩
  unfold LispSession.watched
  rw [hx, Run.outcome_back]
  exact if_pos ⟨⟨hlow, hhigh⟩, hlow, hhigh⟩

/-- The next level is there only below the limit, and the level before is there again afterwards. -/
theorem descend (hlimit : limit ≤ high) (h : AgreeAt high (d + 1) (eval f e) (eval' f e)) :
    AgreeAt high d (descend limit eval f e) (descend limit eval' f e) := by
  intro _ s
  unfold LispSession.descend
  by_cases hd : limit ≤ d
  -- The level is not touched if there is no next one.
  · exact ⟨.error (.raised ⟨.recursionLimit limit, e⟩), s, nofun, if_pos hd, if_pos hd⟩
  · obtain ⟨r, s', hr, hx, hy⟩ := h (by omega) s
    dsimp only
    rw [if_neg hd, if_neg hd, hx, hy]
    refine ⟨r, s', hr, ?_⟩
    cases r <;> exact ⟨rfl, rfl⟩

theorem descendBetween (hlow : low ≤ d) (hlimit : limit ≤ high) (h : AgreeAt high (d + 1) (eval f e) (eval' f e)) :
    AgreeAt high d (descendBetween low high limit eval f e) (LispSession.descend limit eval' f e) :=
  .watched hlow (.descend hlimit (.watched (Nat.le_succ_of_le hlow) h))

end AgreeAt

/-- **On the levels from its own to the limit, evaluation does the same with and without an eye on them**, and it comes
back to its own. -/
theorem evaluate_agreeAt (limit fuel d : Nat) (f : FrameId) (e : Value) :
    AgreeAt (max d limit) d (evaluateBetween d (max d limit) limit fuel f e) (evaluate limit fuel f e) := by
  rw [evaluate, evalRounds_eq_evalWith]
  refine .descendBetween (Nat.le_refl d) (Nat.le_max_right d limit) ?_
  -- Its rounds are on level `d + 1`, and those of the `n`-th level below are on `d + 1 + n`.
  refine Comparison.evalWith (fun n => AgreeAt.comparison (max d limit) (d + 1 + n)) Comparison.evalRound ?_ fuel 0 f e
  exact fun h f e => .descendBetween (by omega) (Nat.le_max_right d limit) (h f e)

/-! ## One evaluation after the other -/

/-- Evaluate expressions one after the other, each in its frame, whatever becomes of those before. -/
def evaluateEach (limit fuel : Nat) : List (FrameId × Value) → Machine → List (Except Halt Value) × Machine
  | [], m => ([], m)
  | (f, e) :: later, m =>
    let (r, m) := Run.outcome (evaluate limit fuel f e m)
    let (rs, m) := evaluateEach limit fuel later m
    (r :: rs, m)

/-- What each expression comes to is what it comes to on the machine that those before have left. -/
theorem getElem?_evaluateEach (limit fuel : Nat) (f : FrameId) (e : Value) (later : List (FrameId × Value)) :
    ∀ (before : List (FrameId × Value)) (m : Machine),
      (evaluateEach limit fuel (before ++ (f, e) :: later) m).1[before.length]? =
        some (Run.outcome (evaluate limit fuel f e (evaluateEach limit fuel before m).2)).1
  | [], _ => rfl
  | (g, c) :: before, m => getElem?_evaluateEach limit fuel f e later before (Run.outcome (evaluate limit fuel g c m)).2

theorem evaluateEach_level (limit fuel d : Nat) : ∀ (calls : List (FrameId × Value)) (s : Store),
    ∃ s', (evaluateEach limit fuel calls ⟨s, d⟩).2 = ⟨s', d⟩
  | [], s => ⟨s, rfl⟩
  | (f, e) :: later, s => by
    obtain ⟨r, s₁, -, -, hrun⟩ := evaluate_agreeAt limit fuel d f e (Nat.le_max_left d limit) s
    rw [evaluateEach, hrun, Run.outcome_back]
    exact evaluateEach_level limit fuel d later s₁

/-- **The level never leaks.**  Whatever the expression, the frame, the store and the level to begin with, and whatever
evaluation comes to, be it a value, an error from any depth, or no end, it leaves the machine on the level it found it
on.  On the way it sets no level below that one, and none above the limit, if that is not below it already.

So of expressions that are evaluated one after the other on one machine each begins on the level on which the first one
did, and comes to what it comes to there with the store that those before have left: no level is lost to what has failed
before. -/
theorem level_never_leaks (limit fuel : Nat) :
    (∀ (f : FrameId) (e : Value) (s : Store) (d : Nat), ∃ r s', r ≠ .error .stuck ∧
      evaluate limit fuel f e ⟨s, d⟩ = Run.back r ⟨s', d⟩ ∧
      evaluateBetween d (max d limit) limit fuel f e ⟨s, d⟩ = Run.back r ⟨s', d⟩) ∧
    ∀ (before later : List (FrameId × Value)) (f : FrameId) (e : Value) (s : Store) (d : Nat), ∃ s',
      (evaluateEach limit fuel before ⟨s, d⟩).2 = ⟨s', d⟩ ∧
      (evaluateEach limit fuel (before ++ (f, e) :: later) ⟨s, d⟩).1[before.length]? =
        some (Run.outcome (evaluate limit fuel f e ⟨s', d⟩)).1 := by
  refine ⟨fun f e s d => ?_, fun before later f e s d => ?_⟩
  · obtain ⟨r, s', hr, hbetween, hrun⟩ := evaluate_agreeAt limit fuel d f e (Nat.le_max_left d limit) s
    exact ⟨r, s', hr, hrun, hbetween⟩
  · obtain ⟨s', hlevel⟩ := evaluateEach_level limit fuel d before s
    refine ⟨s', hlevel, ?_⟩
    rw [getElem?_evaluateEach, hlevel]

/-- Under a limit of three `(if (if (if #t #t) #t) #t)` fails on the way down, and `(if (if #t #t) #t)` still has all
three levels after it.  It needs them: it is stuck where the third one may not be set. -/
example :
    let cond (test : Value) : Value := .pair 0 (.sym "if") (.pair 0 test (.pair 0 (.bool true) .nil))
    let deep := cond (cond (cond (.bool true)))
    let fits := cond (cond (.bool true))
    (evaluateEach 3 9 [(0, deep), (0, deep), (0, fits)] {}).1 =
        [.error (.raised ⟨.recursionLimit 3, .bool true⟩), .error (.raised ⟨.recursionLimit 3, .bool true⟩),
          .ok (.bool true)] ∧
      evaluateBetween 0 2 3 9 0 fits {} = .error .stuck {} := ⟨rfl, rfl⟩

end LispSession
