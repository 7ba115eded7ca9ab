import LispSession.Proofs.Session.Deeds
import LispSession.Proofs.Evaluation.Discipline
/-!
# Sessions with the interpreter

The interpreter replies like any other evaluator, but for one thing: an evaluation may be given up, and then there is
neither a value nor an error to go on with, and the session stops there.  Up to then its steps are the steps of its
stance (`Stands.step_standard`).  So what holds of a stance and of the task at hand, and is kept from one to the next,
holds after any number of steps (`Upholds.runFor`).

What an evaluation keeps to is kept to by the evaluator of a session as well (`Discipline.standard_keeps`).
-/
namespace LispSession

/-! ## Replies -/

/-- What a session makes of a verdict.  Those that do not leave it to decide what comes next are none of the
interpreter's, or end the session. -/
def Verdict.reply : Verdict → Reply
  | .resume v => .value v
  | .raise message expression => .raised message expression
  | .fault message => .fault message
  | .panic text => .panic text
  | .proceed _ | .unfinished => .panic none

/-- The replies of the interpreter. -/
def Replier.standard : Replier Interpreter := fun i d environment =>
  ((Evaluator.standard.eval i d environment).1, (Evaluator.standard.eval i d environment).2.reply)

/-- The interpreter replies, or its evaluation is given up. -/
theorem Replier.standard_evaluator (i : Interpreter) (d : Datum) (environment : FrameId) :
    Replier.standard.evaluator.eval i d environment = Evaluator.standard.eval i d environment ∨
    (Evaluator.standard.eval i d environment).2 = .unfinished := by
  unfold evaluator standard Evaluator.standard
  dsimp only
  split
  · exact .inl rfl
  · exact .inl rfl
  · exact .inl rfl
  · exact .inr rfl

/-- **The evaluator of a session keeps to a discipline** as the interpreter does. -/
theorem Discipline.standard_keeps (D : Discipline) (hc : ¬D.closureless) (i : Interpreter) (d : Datum)
    (environment : FrameId) (hs : D.store i.machine.store)
    (hd : D.code i.machine.store.size environment (i.machine.store.place d).1) :
    ∃ s', (Evaluator.standard.eval i d environment).1.machine.store = s' ∧ i.machine.store.size ≤ s'.size ∧ D.store s' ∧
      ∀ v, (Evaluator.standard.eval i d environment).2 = .resume v → D.value s'.size v := by
  obtain ⟨r, s', hin, hle, hs', hmeets⟩ :=
    D.evaluateIn_keeps hc { i with machine := { i.machine with depth := 0 } } environment d hs hd
  unfold Evaluator.standard
  dsimp only
  rw [hin]
  refine ⟨s', ?_, hle, hs', ?_⟩
  · rcases r with (_ | _ | _) | _ <;> rfl
  · intro v hv
    rcases r with (_ | _ | _) | v' <;> cases hv
    exact hmeets

theorem Stance.evaluation_afterRead {σ : Type} (a : Stance σ) (c : Cursor)
    (result : Except ReadFailure (Option Datum)) :
    (a.afterRead c result).1.evaluation = a.evaluation := by
  rcases result with ((_ | _ | _ | _) | _) | _ | d <;> rfl

/-- A step evaluates what there is to evaluate, and nothing else happens to the state of the evaluator. -/
theorem Stance.evaluation_next {σ : Type} (reply : Replier σ) (globals : FrameId) (broken : Option StepFailure)
    (a : Stance σ) (t : Task) :
    (a.next reply globals broken t).1.evaluation = a.evaluation ∨
      ∃ d shown, t = .evaluate d shown ∧
        (a.next reply globals broken t).1.evaluation = (reply a.evaluation d globals).1 := by
  cases t with
  | read payload =>
    refine .inl ?_
    cases ht : a.take? with
    | none => rw [next_read_none ht]; rfl
    | some taken => rw [next_read_some ht rfl, evaluation_afterRead]; rfl
  | evaluate d shown => exact .inr ⟨d, shown, rfl, rfl⟩
  | print v => exact .inl rfl
  | report r => exact .inl rfl

namespace Session

/-! ## Steps -/

section Agree

variable {σ : Type} {s s' : Session σ} {i : Invocation}

theorem showTrace_keeps (h : s.showTrace i = .ok s') : s'.chain = s.chain ∧ s'.evaluation = s.evaluation := by
  unfold showTrace at h
  split at h
  · cases h
    exact ⟨rfl, rfl⟩
  · cases ht : s.chain.trace i s.traceDepth with
    | error why => rw [ht] at h; cases h
    | ok text =>
      rw [ht] at h
      cases h
      exact ⟨rfl, rfl⟩

/-- Two evaluators that agree on what the invocation at hand asks of them, if it asks anything. -/
def Agree (s : Session σ) (i : Invocation) (e e' : Evaluator σ) : Prop :=
  s.chain.stage i.id = .ok .eval → ∀ d environment, i.payload = .eval d environment →
    e.eval s.evaluation d environment = e'.eval s.evaluation d environment

theorem Agree.perform {e e' : Evaluator σ} (h : s.Agree i e e') (printer : Printer) :
    s.perform ⟨e, printer⟩ i = s.perform ⟨e', printer⟩ i := by
  unfold Session.perform
  cases hstage : s.chain.stage i.id with
  | error why => rfl
  | ok stage =>
    cases stage with
    | read | print | handleError => rfl
    | eval =>
      dsimp only [Session.eval]
      cases hp : i.payload with
      | eval d environment => simp only [h hstage d environment hp]
      | none | resume | result | error | cursor => rfl

theorem Agree.step {e e' : Evaluator σ} (h : s.Agree i e e') (printer : Printer) :
    s.step ⟨e, printer⟩ i = s.step ⟨e', printer⟩ i := by
  unfold Session.step
  cases ht : s.showTrace i with
  | error why => rfl
  | ok s' =>
    obtain ⟨hchain, hevaluation⟩ := showTrace_keeps ht
    have h' : s'.Agree i e e' := by
      unfold Agree
      rw [hchain, hevaluation]
      exact h
    dsimp only
    rw [h'.perform printer]

theorem runFor_add (tools : Tools σ) (n k : Nat) (s : Session σ) (status : Status) :
    s.runFor tools (n + k) status = (s.runFor tools n status).1.runFor tools k (s.runFor tools n status).2 := by
  induction n generalizing s status with
  | zero => rw [Nat.zero_add]; cases status <;> rfl
  | succ n ih =>
    rw [Nat.succ_add]
    cases status with
    | running i =>
      rw [runFor, runFor]
      exact ih _ _
    | halted | crashed | unfinished => cases k <;> rfl

end Agree

variable {s : Session Interpreter} {globals : FrameId} {a : Stance Interpreter}

/-- A session whose evaluation is given up stops, with the interpreter as it is then. -/
theorem Stands.step_unfinished (h : s.Stands globals a) (printer : Printer) {d : Datum} {shown : Bool}
    (ht : a.Admits (.evaluate d shown)) (hgiven : (Evaluator.standard.eval a.evaluation d globals).2 = .unfinished) :
    ∃ s', s.step ⟨.standard, printer⟩ ((Task.evaluate d shown).invocation globals) = (s', .unfinished) ∧
      s'.Stands globals (a.next .standard globals none (.evaluate d shown)).1 := by
  obtain ⟨s₁, traced, h₁⟩ := h.showTrace ht
  have stage : s₁.chain.stage Wiring.eval = .ok .eval := by rw [h₁.chain, Chain.stage_eval]
  rw [Session.step, traced]
  dsimp only [Task.invocation, Invocation.evaluating, Session.perform]
  rw [stage]
  dsimp only [eval]
  rw [h₁.evaluation, hgiven]
  exact ⟨_, rfl, { h₁ with evaluation := rfl }⟩

/-- **Every step of a session with the interpreter is a step of its stance**, or the session stops because the
evaluation at hand is given up. -/
theorem Stands.step_standard (h : s.Stands globals a) (printer : Printer) {t : Task} (ht : a.Admits t) :
    ∃ s' broken, s'.Stands globals (a.next .standard globals broken t).1 ∧
      (s.step ⟨.standard, printer⟩ (t.invocation globals) =
        (s', statusOf globals (a.next .standard globals broken t).2) ∨
        s.step ⟨.standard, printer⟩ (t.invocation globals) = (s', .unfinished) ∧
          ∃ d shown, t = .evaluate d shown ∧ (Evaluator.standard.eval a.evaluation d globals).2 = .unfinished) := by
  by_cases hgiven : ∃ d shown, t = .evaluate d shown ∧ (Evaluator.standard.eval a.evaluation d globals).2 = .unfinished
  · obtain ⟨d, shown, rfl, hverdict⟩ := hgiven
    obtain ⟨s', hstep, h'⟩ := h.step_unfinished printer ht hverdict
    exact ⟨s', none, h', .inr ⟨hstep, d, shown, rfl, hverdict⟩⟩
  · have agree : s.Agree (t.invocation globals) .standard Replier.standard.evaluator := by
      intro hstage d environment hp
      rw [h.evaluation]
      cases t with
      | evaluate d' shown =>
        cases hp
        exact ((Replier.standard_evaluator _ _ _).resolve_right fun hverdict => hgiven ⟨d, shown, rfl, hverdict⟩).symm
      | read payload =>
        rw [h.chain, Task.invocation, Invocation.reading, Chain.stage_read] at hstage
        cases hstage
      | print | report => cases hp
    obtain ⟨s', broken, hstep, h'⟩ := h.step .standard printer ht
    exact ⟨s', broken, h', .inl ((agree.step printer).trans hstep)⟩

/-! ## Whole sessions -/

/-- A session stands where one thing holds, and is about to do what another thing holds of, if it goes on. -/
def Upholds (globals : FrameId) (I : Stance Interpreter → Prop) (K : Stance Interpreter → Task → Prop)
    (s : Session Interpreter) (status : Status) : Prop :=
  ∃ a, s.Stands globals a ∧ I a ∧ ∀ i, status = .running i → ∃ t, i = t.invocation globals ∧ a.Admits t ∧ K a t

namespace Upholds

variable {I : Stance Interpreter → Prop} {K : Stance Interpreter → Task → Prop}

theorem start (outlet : Outlet) (sources : List Source) (evaluation : Interpreter) (hI : I { evaluation, sources })
    (hK : K { evaluation, sources } (.read .none)) :
    (startOn outlet sources evaluation globals).Upholds globals I K
      (startOn outlet sources evaluation globals).initial := by
  have h := startOn_stands outlet sources evaluation globals
  refine ⟨_, h, hI, fun i hi => ?_⟩
  rw [h.initial] at hi
  cases hi
  exact ⟨.read .none, rfl, trivial, hK⟩

/-- What every step of a stance keeps is kept by every step of a session. -/
theorem step {i : Invocation} (h : s.Upholds globals I K (.running i)) (hnext : ∀ a t broken, I a → K a t →
      I (a.next .standard globals broken t).1 ∧
        ∀ t' ∈ (a.next .standard globals broken t).2, K (a.next .standard globals broken t).1 t') (printer : Printer) :
    (s.step ⟨.standard, printer⟩ i).1.Upholds globals I K (s.step ⟨.standard, printer⟩ i).2 := by
  obtain ⟨a, hs, hI, hrunning⟩ := h
  obtain ⟨t, rfl, ht, hK⟩ := hrunning i rfl
  obtain ⟨s', broken, h', hstep⟩ := hs.step_standard printer ht
  obtain ⟨hI', hK'⟩ := hnext a t broken hI hK
  obtain hstep | ⟨hstep, -⟩ := hstep
  · rw [hstep]
    refine ⟨_, h', hI', fun j hj => ?_⟩
    cases hthen : (a.next .standard globals broken t).2 with
    | none => rw [hthen] at hj; cases hj
    | some t' =>
      rw [hthen] at hj
      cases hj
      exact ⟨t', rfl, ht.next broken t' hthen, hK' t' hthen⟩
  · rw [hstep]
    exact ⟨_, h', hI', nofun⟩

theorem runFor {status : Status} (h : s.Upholds globals I K status) (hnext : ∀ a t broken, I a → K a t →
      I (a.next .standard globals broken t).1 ∧
        ∀ t' ∈ (a.next .standard globals broken t).2, K (a.next .standard globals broken t).1 t')
        (printer : Printer) (n : Nat) :
    (s.runFor ⟨.standard, printer⟩ n status).1.Upholds globals I K (s.runFor ⟨.standard, printer⟩ n status).2 := by
  induction n generalizing s status with
  | zero => cases status <;> exact h
  | succ n ih =>
    cases status with
    | running i =>
      rw [Session.runFor]
      exact ih (h.step hnext printer)
    | halted | crashed | unfinished => exact h

/-- **What evaluation in the global frame keeps is kept by a session**, from wherever it stands. -/
theorem evaluation {P : Interpreter → Prop} {status : Status}
    (hP : ∀ i d, P i → P (Evaluator.standard.eval i d globals).1)
    (h : s.Upholds globals (fun a => P a.evaluation) (fun _ _ => True) status) (printer : Printer) (n : Nat) :
    P (s.runFor ⟨.standard, printer⟩ n status).1.evaluation := by
  have later := h.runFor (fun a t broken ha _ => ⟨?_, fun _ _ => trivial⟩) printer n
  · obtain ⟨b, hb, hPb, -⟩ := later
    rwa [hb.evaluation]
  · obtain hsame | ⟨d, shown, -, hnext⟩ := Stance.evaluation_next .standard globals broken a t
    · rwa [hsame]
    · rw [hnext]
      exact hP a.evaluation d ha

end Upholds

/-- The store of a session, so many steps from its beginning. -/
def storeAfter (s : Session Interpreter) (printer : Printer) (n : Nat) : Store :=
  (s.runFor ⟨.standard, printer⟩ n s.initial).1.evaluation.machine.store

end Session

end LispSession
