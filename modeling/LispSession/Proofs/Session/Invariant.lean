import LispSession.Proofs.Session.Deeds
/-!
# How every session is wired at every moment

The chain of a session is `Chain.wired` from beginning to end, with `print` in it as soon as a console has brought a
datum; what is invoked always fits what the chain holds; and the statement that `handleError` finds is the one that
failed.  This is proved of a stance, one step at a time (`Stance.Recalls.next`), and then of whole sessions.

It follows that no step is ever invoked with parameters it cannot use: what breaks off does so because a console, the
evaluator, the printer or a channel gives way, and for no other reason.
-/
namespace LispSession

namespace Deed

/-- A datum was read from a console. -/
def isConsoleDatum : Deed → Bool
  | .read _ after (.ok (some _)) => after.isConsole
  | _ => false

/-- The datum that is handed to the evaluator. -/
def handed? : Deed → Option Datum
  | .evaluate d _ => some d
  | _ => none

/-- The datum that was handed to the evaluator last. -/
def lastHanded (deeds : List Deed) : Option Datum := (deeds.filterMap handed?).getLast?

theorem lastHanded_evaluate (deeds : List Deed) (d : Datum) (environment : FrameId) :
    lastHanded (deeds ++ [.evaluate d environment]) = some d := by
  simp [lastHanded, handed?]

end Deed

namespace Stance

variable {σ : Type} {reply : Replier σ} {globals : FrameId} {a : Stance σ}

/-- A stance and a task fit what has been done: `print` is registered if a console has brought a datum, and the
statement is the expression under evaluation. -/
structure Recalls (a : Stance σ) (done : List Deed) (t : Task) : Prop where
  admitted : a.Admits t
  printing : a.printing = done.any Deed.isConsoleDatum
  evaluating : ∀ d shown, t = .evaluate d shown → a.statement = some d
  printed : ∀ v, t = .print v → ∃ d, a.statement = some d ∧ Deed.lastHanded done = some d

theorem any_prompts (ws : List Writing) : (ws.map Deed.prompt).any Deed.isConsoleDatum = false := by
  simp [Deed.isConsoleDatum]

/-- What a read leads to: `print` is registered if a console brings a datum, and the statement is the datum, or there is
none. -/
theorem afterRead_recalls (a : Stance σ) (hs : a.statement = none) (before after : Cursor)
    (result : Except ReadFailure (Option Datum)) :
    (a.afterRead after.dropEcho result).1.printing =
      (a.printing || (Deed.read before after result :: Deed.ending result).any Deed.isConsoleDatum) ∧
    (∀ d shown, (a.afterRead after.dropEcho result).2 = some (.evaluate d shown) →
      (a.afterRead after.dropEcho result).1.statement = some d) ∧
    (∀ v, (a.afterRead after.dropEcho result).2 ≠ some (.print v)) ∧
    (∀ r, (a.afterRead after.dropEcho result).2 = some (.report r) →
      (a.afterRead after.dropEcho result).1.statement = none) := by
  rcases result with ((_ | _ | _ | _) | _) | _ | d
  case ok.some =>
    refine ⟨?_, ?_, by simp [afterRead], by simp [afterRead]⟩
    · simp [afterRead, Deed.isConsoleDatum, Deed.ending, Cursor.isConsole_dropEcho]
    · intro d' shown h
      cases h
      rfl
  all_goals exact ⟨(Bool.or_false _).symm, by simp [afterRead], by simp [afterRead], by simp [afterRead, keep, hs]⟩

theorem Recalls.printing_next {done : List Deed} {t : Task} (h : a.Recalls done t) (broken : Option StepFailure) :
    (a.next reply globals broken t).1.printing = (done ++ a.deeds globals t).any Deed.isConsoleDatum := by
  rw [List.any_append, ← h.printing]
  cases t with
  | read payload =>
    rw [deeds, List.any_append, any_prompts, Bool.false_or]
    cases ht : a.take? with
    | none =>
      rw [next_read_none ht]
      exact (Bool.or_false _).symm
    | some taken =>
      rcases hread : taken.1.ready.read with ⟨c, result⟩
      rw [next_read_some ht hread]
      dsimp only
      rw [hread]
      exact (afterRead_recalls (a.reading taken.2) rfl taken.1.ready c result).1
  | evaluate | print | report => exact (Bool.or_false _).symm

/-- **A step keeps a stance and its task in accord with what has been done.** -/
theorem Recalls.next {done : List Deed} {t t' : Task} (h : a.Recalls done t) {broken : Option StepFailure}
    (ht' : (a.next reply globals broken t).2 = some t') :
    (a.next reply globals broken t).1.Recalls (done ++ a.deeds globals t) t' := by
  refine ⟨h.admitted.next broken t' ht', h.printing_next broken, fun d shown he => ?_, fun v hp => ?_⟩
  · subst he
    cases t with
    | read payload =>
      cases ht : a.take? with
      | none => rw [next_read_none ht] at ht'; cases ht'
      | some taken =>
        rw [next_read_some ht rfl] at ht' ⊢
        exact (afterRead_recalls (a.reading taken.2) rfl taken.1.ready _ _).2.1 d shown ht'
    | evaluate d' shown' =>
      rcases hreply : (reply a.evaluation d' globals).2 with v | ⟨message, expression⟩ | message | text <;>
        simp only [Stance.next, hreply, afterEval] at ht'
      · cases shown' <;> cases ht'
      · cases ht'
      · cases ht'
      · cases ht'
    | print v => cases broken <;> cases ht'
    | report r => cases ht'
  · subst hp
    cases t with
    | read payload =>
      cases ht : a.take? with
      | none => rw [next_read_none ht] at ht'; cases ht'
      | some taken =>
        rw [next_read_some ht rfl] at ht'
        exact absurd ht' ((afterRead_recalls (a.reading taken.2) rfl taken.1.ready _ _).2.2.1 v)
    | evaluate d shown => exact ⟨d, h.evaluating d shown rfl, Deed.lastHanded_evaluate done d globals⟩
    | print v' => cases broken <;> cases ht'
    | report r => cases ht'

/-- **The statement that a report finds is the one that failed**: none after a read, and else what was handed to the
evaluator last. -/
theorem Recalls.reported {done : List Deed} {t : Task} {r : Report} (h : a.Recalls done t) {broken : Option StepFailure}
    (hr : (a.next reply globals broken t).2 = some (.report r)) :
    ((t.invocation globals).id = Wiring.read → (a.next reply globals broken t).1.statement = none) ∧
    ((t.invocation globals).id ≠ Wiring.read → ∃ d, (a.next reply globals broken t).1.statement = some d ∧
      Deed.lastHanded (done ++ a.deeds globals t) = some d) := by
  cases t with
  | read payload =>
    refine ⟨fun _ => ?_, fun hne => absurd rfl hne⟩
    cases ht : a.take? with
    | none => rw [next_read_none ht] at hr; cases hr
    | some taken =>
      rw [next_read_some ht rfl] at hr ⊢
      exact (afterRead_recalls (a.reading taken.2) rfl taken.1.ready _ _).2.2.2 r hr
  | evaluate d shown =>
    exact ⟨nofun, fun _ => ⟨d, h.evaluating d shown rfl, Deed.lastHanded_evaluate done d globals⟩⟩
  | print v =>
    refine ⟨nofun, fun _ => ?_⟩
    rw [deeds, List.append_nil]
    exact h.printed v rfl
  | report r' => cases hr

end Stance

namespace Session

variable {σ : Type} {reply : Replier σ} {printer : Printer} {globals : FrameId}

/-! ## Whole sessions -/

/-- What a session with these deeds behind it may be about to do, given its statement: to read; to evaluate the
statement, with its value to be shown only where there is a step for that; to show the value of what was evaluated last;
or to report an error. -/
inductive Expected (globals : FrameId) (done : List Deed) (statement : Option Datum) : Invocation → Prop
  | read (payload : Payload) : Expected globals done statement (.reading payload)
  | eval {d : Datum} (h : statement = some d) : Expected globals done statement (.evaluating d globals Wiring.read)
  | evalShown {d : Datum} (h : statement = some d) (registered : done.any Deed.isConsoleDatum = true) :
      Expected globals done statement (.evaluating d globals Wiring.print)
  | print {d : Datum} (v : Value) (h : statement = some d) (last : Deed.lastHanded done = some d)
      (registered : done.any Deed.isConsoleDatum = true) : Expected globals done statement (.printing v)
  | report (r : Report) : Expected globals done statement (.reporting r)

theorem expected_of_recalls {a : Stance σ} {done : List Deed} {t : Task} (h : a.Recalls done t) :
    Expected globals done a.statement (t.invocation globals) := by
  cases t with
  | read payload => exact .read payload
  | evaluate d shown =>
    cases shown with
    | false => exact .eval (h.evaluating d false rfl)
    | true => exact .evalShown (h.evaluating d true rfl) (h.printing ▸ h.admitted rfl)
  | print v =>
    obtain ⟨d, hs, hd⟩ := h.printed v rfl
    exact .print v hs hd (h.printing ▸ h.admitted)
  | report r => exact .report r

/-- A session on its way: it stands somewhere in accord with what it has done, at its end or about to do something. -/
def OnItsWay (globals : FrameId) (s : Session σ) (status : Status) (done : List Deed) : Prop :=
  ∃ (a : Stance σ), s.Stands globals a ∧
    (status = .halted ∧ a.printing = done.any Deed.isConsoleDatum ∨
      ∃ t : Task, status = .running (t.invocation globals) ∧ a.Recalls done t)

theorem OnItsWay.step {s : Session σ} {done : List Deed} {i : Invocation} (h : OnItsWay globals s (.running i) done) :
    OnItsWay globals (s.step ⟨reply.evaluator, printer⟩ i).1 (s.step ⟨reply.evaluator, printer⟩ i).2
      (done ++ s.deeds ⟨reply.evaluator, printer⟩ i) := by
  obtain ⟨a, hs, ⟨hh, -⟩ | ⟨t, hi, ht⟩⟩ := h
  · cases hh
  · cases hi
    obtain ⟨s', broken, hstep, h'⟩ := hs.step reply printer ht.admitted
    rw [hstep, hs.deeds _ ht.admitted]
    refine ⟨_, h', ?_⟩
    cases hnext : (a.next reply globals broken t).2 with
    | none => exact .inl ⟨rfl, ht.printing_next broken⟩
    | some t' => exact .inr ⟨t', rfl, ht.next hnext⟩

/-- What holds on the way holds after any number of steps. -/
theorem OnItsWay.runFor {s : Session σ} {status : Status} {done : List Deed} (h : OnItsWay globals s status done)
    (reply : Replier σ) (printer : Printer) (n : Nat) :
    OnItsWay globals (s.runFor ⟨reply.evaluator, printer⟩ n status).1 (s.runFor ⟨reply.evaluator, printer⟩ n status).2
      (done ++ s.deedsFor ⟨reply.evaluator, printer⟩ n status) := by
  induction n generalizing s status done with
  | zero => cases status <;> simpa [Session.runFor, deedsFor] using h
  | succ n ih =>
    cases status with
    | running i =>
      rw [Session.runFor, deedsFor, ← List.append_assoc]
      exact ih h.step
    | halted | crashed | unfinished => simpa [Session.runFor, deedsFor] using h

/-- What can go wrong at a step comes from outside, and its report finds the statement that failed: none if it was a
read, and else what was handed to the evaluator last. -/
structure FailsSoundly (tools : Tools σ) (done : List Deed) (s : Session σ) (i : Invocation) : Prop where
  breaks : ∃ traced, s.showTrace i = .ok traced ∧
    ∀ why, (traced.perform tools i).2 = .failed why → Breaks tools s.evaluation i why
  reported : ∀ s' r, s.step tools i = (s', .running (.reporting r)) →
    ∃ statement slot printing, s'.chain = .wired statement slot printing ∧ (i.id = Wiring.read → statement = none) ∧
      (i.id ≠ Wiring.read → ∃ d, statement = some d ∧ Deed.lastHanded (done ++ s.deeds tools i) = some d)

theorem task_of_reporting {next : Option Task} {r : Report} (h : statusOf globals next = .running (.reporting r)) :
    next = some (.report r) := by
  match next with
  | none => cases h
  | some (.read _) | some (.evaluate _ _) | some (.print _) => cases h
  | some (.report _) => cases h; rfl

theorem Stands.failsSoundly {s : Session σ} {a : Stance σ} (h : s.Stands globals a) {done : List Deed} {t : Task}
    (ht : a.Recalls done t) : FailsSoundly ⟨reply.evaluator, printer⟩ done s (t.invocation globals) where
  breaks := by
    obtain ⟨traced, hs, h₁⟩ := h.showTrace ht.admitted
    refine ⟨traced, hs, fun why hfailed => ?_⟩
    obtain ⟨broken, -, hnext | ⟨why', hwhy, hbreaks, -⟩⟩ := h₁.perform reply printer ht.admitted
    · cases hfailed.symm.trans hnext
    · cases hfailed.symm.trans hwhy
      rw [h.evaluation]
      exact hbreaks
  reported := by
    intro s' r hr
    obtain ⟨s₁, broken, hstep, h₁⟩ := h.step reply printer ht.admitted
    obtain ⟨rfl, hstatus⟩ := Prod.mk.inj (hr.symm.trans hstep)
    rw [h.deeds _ ht.admitted]
    exact ⟨_, _, _, h₁.chain, ht.reported (task_of_reporting hstatus.symm)⟩

end Session

/-- **A session is wired in one way from beginning to end.**  After any number of steps, whatever the sources hold, the
channels take, the evaluator replies and the printer panics on, the chain consists of `eval`, of `read` before it, of
`handleError`, which goes back to `read`, and of `print`, which does so too, from the first datum of a console on.  They
share one state, with `handleError` in it, and keep nothing in their slots but a cursor in that of `read`.  The session
has ended, or what is invoked is what is expected; then what can go wrong comes from outside, and its report finds the
statement that failed. -/
theorem session_stays_wired {σ : Type} (reply : Replier σ) (printer : Printer) (sources : List Source) (evaluation : σ)
    (globals : FrameId) (outlet : Session.Outlet) (n : Nat) :
    let tools : Session.Tools σ := ⟨reply.evaluator, printer⟩
    let first := Session.startOn outlet sources evaluation globals
    let now := first.runFor tools n first.initial
    let done := first.deedsFor tools n first.initial
    ∃ statement slot, now.1.chain = .wired statement slot (done.any Deed.isConsoleDatum) ∧
      (slot = .none ∨ ∃ c, slot = .cursor c) ∧
      (now.2 = .halted ∨ ∃ i, now.2 = .running i ∧ Session.Expected globals done statement i ∧
        Session.FailsSoundly tools done now.1 i) := by
  intro tools first now done
  have h₀ := Session.startOn_stands outlet sources evaluation globals
  have begun : Session.OnItsWay globals first first.initial [] :=
    ⟨_, h₀, .inr ⟨.read .none, h₀.initial, ⟨trivial, rfl, nofun, nofun⟩⟩⟩
  obtain ⟨a, h, way⟩ : Session.OnItsWay globals now.1 now.2 done := by
    have := begun.runFor reply printer n
    rwa [List.nil_append] at this
  have slot : a.slot = .none ∨ ∃ c, a.slot = .cursor c := by
    unfold Stance.slot
    cases a.cursor with
    | none => exact .inl rfl
    | some c => exact .inr ⟨c, rfl⟩
  obtain ⟨halted, printing⟩ | ⟨t, running, ht⟩ := way
  · exact ⟨a.statement, a.slot, printing ▸ h.chain, slot, .inl halted⟩
  · exact ⟨a.statement, a.slot, ht.printing ▸ h.chain, slot,
      .inr ⟨_, running, Session.expected_of_recalls ht, h.failsSoundly ht⟩⟩

end LispSession
