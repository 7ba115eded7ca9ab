import LispSession.Proofs.Session.Deeds
/-!
# Every session halts

A session goes round and round: nothing to read leads to another read, a failure to a report, a report to a read, and a
report may fail every time.  Yet each round has a read in it, and a read leaves less to read.  So a number goes down
with every single step (`Stance.remaining`): what is left to read, counted four times, and the steps up to the next
read, of which there are three at most.  Neither channels nor printer come into it, as a step that breaks off is
followed by one that is nearer to a read as well.
-/
namespace LispSession

/-- How many steps there are at most before the next read. -/
def Task.stepsToRead : Task → Nat
  | .read _ => 0
  | .report _ => 1
  | .print _ => 2
  | .evaluate _ _ => 3

theorem Task.stepsToRead_le (t : Task) : t.stepsToRead ≤ 3 := by
  cases t <;> simp [stepsToRead]

namespace Stance

variable {σ : Type} {reply : Replier σ} {globals : FrameId} {a : Stance σ} {broken : Option StepFailure}

/-- A bound on the steps that lead to another one. -/
def remaining (a : Stance σ) (t : Task) : Nat := 4 * a.weight + t.stepsToRead

theorem stepsToRead_afterEval (shown : Bool) (answer : Reply) : (afterEval shown answer).stepsToRead ≤ 2 := by
  cases answer with
  | value v => cases shown <;> simp [afterEval, Task.stepsToRead]
  | raised | fault | panic => simp [afterEval, Task.stepsToRead]

/-- **Every step that leads to another one brings the end nearer.** -/
theorem remaining_next {t t' : Task} (h : (a.next reply globals broken t).2 = some t') :
    (a.next reply globals broken t).1.remaining t' < a.remaining t := by
  cases t with
  | read payload =>
    have less := weight_next_read h
    have near := t'.stepsToRead_le
    unfold remaining
    omega
  | evaluate d shown =>
    have near := stepsToRead_afterEval shown (reply a.evaluation d globals).2
    cases h
    simp only [remaining, next, weight, Task.stepsToRead] at near ⊢
    omega
  | print v =>
    cases h
    cases broken <;> simp [remaining, next, Task.stepsToRead]
  | report r =>
    cases h
    simp [remaining, next, Task.stepsToRead]

end Stance

namespace Session

variable {σ : Type} {tools : Tools σ}

/-- What sources have to deliver: their characters and their lines, and one for each of them. -/
def unread (sources : List Source) : Nat :=
  sources.foldr (fun source later => (Cursor.start source).pending + 1 + later) 0

/-- A session takes `n` steps and is at its end then, and not before. -/
def HaltsAfter (tools : Tools σ) (n : Nat) (s : Session σ) (status : Status) : Prop :=
  (∀ k < n, ∃ i, (s.runFor tools k status).2 = .running i) ∧ (s.runFor tools n status).2 = .halted

theorem HaltsAfter.step {n : Nat} {s s' : Session σ} {i : Invocation} {status : Status}
    (first : s.step tools i = (s', status)) (h : HaltsAfter tools n s' status) :
    HaltsAfter tools (n + 1) s (.running i) := by
  obtain ⟨running, halted⟩ := h
  refine ⟨fun k hk => ?_, by rw [runFor, first]; exact halted⟩
  cases k with
  | zero => exact ⟨i, rfl⟩
  | succ k =>
    rw [runFor, first]
    exact running k (Nat.lt_of_succ_lt_succ hk)

/-- At its end a session stays as it is. -/
theorem HaltsAfter.stays {n : Nat} {s : Session σ} {status : Status} (h : HaltsAfter tools n s status) {k : Nat}
    (hk : n ≤ k) :
    s.runFor tools k status = s.runFor tools n status := by
  obtain ⟨-, halted⟩ := h
  induction n generalizing k s status with
  | zero =>
    have ended : status = .halted := by cases status <;> first | rfl | cases halted
    subst ended
    cases k <;> rfl
  | succ n ih =>
    obtain ⟨k, rfl⟩ : ∃ j, k = j + 1 := ⟨k - 1, by omega⟩
    cases status with
    | running i =>
      rw [runFor] at halted
      rw [runFor, runFor]
      exact ih (Nat.le_of_succ_le_succ hk) halted
    | halted | crashed | unfinished => rfl

/-- **From wherever it stands a session comes to its end.**  The recursion is on the steps that remain. -/
theorem Stands.halts {s : Session σ} {globals : FrameId} {a : Stance σ} (h : s.Stands globals a) (reply : Replier σ)
    (printer : Printer) {t : Task} (ht : a.Admits t) :
    ∃ n ≤ a.remaining t + 1, HaltsAfter ⟨reply.evaluator, printer⟩ n s (.running (t.invocation globals)) := by
  obtain ⟨s', broken, first, h'⟩ := h.step reply printer ht
  cases hnext : (a.next reply globals broken t).2 with
  | none =>
    rw [hnext] at first
    exact ⟨1, by omega, .step first ⟨nofun, rfl⟩⟩
  | some t' =>
    have less := Stance.remaining_next hnext
    rw [hnext] at first
    obtain ⟨n, hn, later⟩ := h'.halts reply printer (ht.next broken t' hnext)
    exact ⟨n + 1, by omega, .step first later⟩
termination_by a.remaining t

end Session

/-- **Every session over finite input halts.**  Take any sources: files and texts of any bytes, which end or fail for
good, and consoles with any events; any evaluator that answers each expression with a value, an error, a fault or a
panic; any printer, which may panic; and any channels, which may refuse every write and every flush.  The session takes
at most four steps for every character, line and source, and one more.  Up to then it runs, and from then on it has
halted; and a session that is run to its end is run that far. -/
theorem every_session_halts {σ : Type} (reply : Replier σ) (printer : Printer) (sources : List Source) (evaluation : σ)
    (globals : FrameId) (outlet : Session.Outlet) :
    let tools : Session.Tools σ := ⟨reply.evaluator, printer⟩
    let first := Session.startOn outlet sources evaluation globals
    ∃ n ≤ 4 * Session.unread sources + 1, (∀ k < n, ∃ i, (first.runFor tools k first.initial).2 = .running i) ∧
      (∀ k ≥ n, (first.runFor tools k first.initial).2 = .halted) ∧
      first.run tools = first.runFor tools n first.initial := by
  intro tools first
  have h := Session.startOn_stands outlet sources evaluation globals
  obtain ⟨n, hn, halts⟩ := h.halts reply printer (t := .read .none) trivial
  have weight : ({ evaluation, sources } : Stance σ).weight = Session.unread sources := Nat.zero_add _
  have begun : first.initial = .running (.reading .none) := h.initial
  rw [Stance.remaining, weight] at hn
  have enough : n ≤ Session.stepBound first.sources := by
    rw [h.sources, Session.stepBound_eq evaluation, weight]
    simp only [Task.stepsToRead] at hn
    omega
  rw [Session.run, begun]
  refine ⟨n, hn, halts.1, fun k hk => ?_, halts.stays enough⟩
  have stays : (first.runFor tools k (.running (.reading .none))).2 =
      (first.runFor tools n (.running (.reading .none))).2 :=
    congrArg Prod.snd (halts.stays hk)
  exact stays.trans halts.2

end LispSession
