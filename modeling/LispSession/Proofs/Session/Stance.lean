import LispSession.Proofs.Registry
import LispSession.Proofs.Session.Wiring
import LispSession.Proofs.Session.PlainLoop
/-!
# A session apart from its output

Leave out what a session writes, and little is left of it: the state of the evaluator, the sources to come, the cursor
in the slot of `read`, the statement under evaluation and whether `print` is registered (`Stance`), and what it is about
to do (`Task`).  `Stance.next` is one step in these terms.  Output comes into it in one place only: a value that cannot
be shown is followed by a report, and either way the next read finds everything as it was.

`Stands.step` says that every step of every session is such a step, whatever its channels take, whatever its printer
panics on and however much of it is traced.
-/
namespace LispSession

/-- The evaluator that gives these replies. -/
def Replier.evaluator {σ : Type} (reply : Replier σ) : Evaluator σ where
  eval state d environment :=
    let (state, answer) := reply state d environment
    (state, answer.verdict)

/-- The same replies, with a record of what is asked for: the replier behind `Replier.recording`. -/
def Replier.logging {σ : Type} (reply : Replier σ) : Replier (σ × List (Datum × FrameId)) := fun state d environment =>
  let (evaluation, answer) := reply state.1 d environment
  ((evaluation, state.2 ++ [(d, environment)]), answer)

/-! ## Stances and tasks -/

/-- Where a session stands, apart from its output. -/
structure Stance (σ : Type) where
  evaluation : σ
  sources : List Source
  cursor : Option Cursor := none
  statement : Option Datum := none
  printing : Bool := false

/-- What a session is about to do.  A datum that came from a console is evaluated for its value to be shown. -/
inductive Task where
  | read (payload : Payload)
  | evaluate (d : Datum) (shown : Bool)
  | print (v : Value)
  | report (r : Report)

namespace Task

def invocation (globals : FrameId) : Task → Invocation
  | .read payload => .reading payload
  | .evaluate d shown => .evaluating d globals (if shown then Wiring.print else Wiring.read)
  | .print v => .printing v
  | .report r => .reporting r

/-- What follows a task that broke off. -/
def afterFailure (why : StepFailure) : Task → Task
  | .report _ => .read (.resume true)
  | _ => .report { message := why.message }

end Task

namespace Stance

variable {σ : Type}

/-- What the slot of `read` holds. -/
def slot (a : Stance σ) : Payload :=
  match a.cursor with
  | some c => .cursor c
  | none => .none

/-- The cursor to read from, and the sources after it. -/
def take? (a : Stance σ) : Option (Cursor × List Source) :=
  match a.cursor, a.sources with
  | some c, sources => some (c, sources)
  | none, source :: later => some (.start source, later)
  | none, [] => none

/-- While a cursor is read from, the slot is empty, and so is the statement. -/
def reading (a : Stance σ) (sources : List Source) : Stance σ := { a with sources, cursor := none, statement := none }

/-- A cursor is kept unless its source is used up. -/
def keep (a : Stance σ) (c : Cursor) : Stance σ := { a with cursor := if c.isExhausted then none else some c }

/-- What comes after a read. -/
def afterRead (a : Stance σ) (c : Cursor) : Except ReadFailure (Option Datum) → Stance σ × Option Task
  | .ok none => (a.keep c, some (.read .none))
  | .ok (some d) =>
    ({ a with cursor := some c, statement := some d, printing := a.printing || c.isConsole },
      some (.evaluate d c.isConsole))
  | .error (.text error excerpt) => (a.keep c, some (.report (Session.readReport c (.text error excerpt))))
  | .error (.input .interrupted) => (a, none)
  | .error (.input (.collapsed text)) => (a, some (.report { message := (StepFailure.panic (some text)).message }))
  | .error (.input why) => (a, some (.report (Session.readReport c (.input why))))

/-- What comes after an evaluation. -/
def afterEval (shown : Bool) : Reply → Task
  | .value v => if shown then .print v else .read (.result v)
  | .raised message expression => .report { message, expression }
  | .fault message => .report { message }
  | .panic text => .report { message := (StepFailure.panic text).message }

/-- One step.  `broken` is why a value could not be shown, if that is so. -/
def next (reply : Replier σ) (globals : FrameId) (broken : Option StepFailure) (a : Stance σ) :
    Task → Stance σ × Option Task
  | .read _ =>
    match a.take? with
    | none => (a.reading [], none)
    | some (c, sources) =>
      let (c, result) := c.ready.read
      (a.reading sources).afterRead c.dropEcho result
  | .evaluate d shown =>
    let (evaluation, answer) := reply a.evaluation d globals
    ({ a with evaluation }, some (afterEval shown answer))
  | .print _ => (a, some (broken.elim (.read .none) fun why => .report { message := why.message }))
  | .report _ => (a, some (.read (.resume true)))

/-- A value is only shown by a session that has the step for it. -/
def Admits (a : Stance σ) : Task → Prop
  | .evaluate _ shown => shown = true → a.printing = true
  | .print _ => a.printing = true
  | .read _ | .report _ => True

theorem next_read_none {reply : Replier σ} {globals : FrameId} {a : Stance σ} (ht : a.take? = none)
    (broken : Option StepFailure) (payload : Payload) :
    a.next reply globals broken (.read payload) = (a.reading [], none) := by
  rw [next, ht]

theorem next_read_some {reply : Replier σ} {globals : FrameId} {a : Stance σ} {c c' : Cursor} {later : List Source}
    {result : Except ReadFailure (Option Datum)} (ht : a.take? = some (c, later)) (hread : c.ready.read = (c', result))
    (broken : Option StepFailure) (payload : Payload) :
    a.next reply globals broken (.read payload) = (a.reading later).afterRead c'.dropEcho result := by
  rw [next, ht]
  dsimp only
  rw [hread]

theorem admits_afterRead (a : Stance σ) (c : Cursor) (result : Except ReadFailure (Option Datum)) :
    ∀ t ∈ (a.afterRead c result).2, (a.afterRead c result).1.Admits t := by
  intro t ht
  match result with
  | .ok (some d) =>
    cases ht
    intro shown
    simp [afterRead, shown]
  | .error (.input .interrupted) => cases ht
  | .ok none | .error (.text _ _) | .error (.input (.collapsed _)) | .error (.input (.unreadable _ _))
  | .error (.input (.console _)) => cases ht; trivial

/-- The task after an admitted one is admitted as well. -/
theorem Admits.next {reply : Replier σ} {globals : FrameId} {a : Stance σ} {t : Task} (ht : a.Admits t)
    (broken : Option StepFailure) :
    ∀ t' ∈ (a.next reply globals broken t).2, (a.next reply globals broken t).1.Admits t' := by
  intro t' ht'
  cases t with
  | read payload =>
    cases htake : a.take? with
    | none =>
      rw [next_read_none htake] at ht'
      cases ht'
    | some taken =>
      rw [next_read_some htake rfl] at ht' ⊢
      exact admits_afterRead _ _ _ t' ht'
  | evaluate d shown =>
    cases ht'
    unfold afterEval
    split
    · cases shown with
      | false => trivial
      | true => exact ht rfl
    · trivial
    · trivial
    · trivial
  | print v =>
    cases ht'
    cases broken <;> trivial
  | report r =>
    cases ht'
    trivial

end Stance

/-! ## Traces -/

theorem Chain.size_wired (statement : Option Datum) (slot : Payload) (printing : Bool) :
    (wired statement slot printing).size = if printing then 4 else 3 := by
  cases printing <;> rfl

theorem Chain.wired_linked (statement : Option Datum) (slot : Payload) (printing : Bool) :
    (wired statement slot printing).Linked := by
  cases printing <;> simp [Linked, wired, printStep, size, Wiring.read, Wiring.eval]

/-- A task that is admitted is about registered steps. -/
theorem Stance.Admits.registered {σ : Type} {a : Stance σ} {t : Task} (h : a.Admits t) (globals : FrameId) :
    (t.invocation globals).id < (Chain.wired a.statement a.slot a.printing).size ∧
    ∀ next, (t.invocation globals).successor = some next → next < (Chain.wired a.statement a.slot a.printing).size := by
  have three : 3 ≤ (Chain.wired a.statement a.slot a.printing).size := by rw [Chain.size_wired]; split <;> decide
  have four (hp : a.printing = true) : (Chain.wired a.statement a.slot a.printing).size = 4 := by
    rw [Chain.size_wired, if_pos hp]
  cases t with
  | read payload => exact ⟨Nat.lt_of_succ_lt three, fun next hnext => by cases hnext; exact Nat.zero_lt_of_lt three⟩
  | report r => exact ⟨three, fun next hnext => by cases hnext; exact Nat.lt_of_succ_lt three⟩
  | print v =>
    rw [four h]
    exact ⟨Nat.lt_add_one 3, fun next hnext => by cases hnext; decide⟩
  | evaluate d shown =>
    refine ⟨Nat.zero_lt_of_lt three, fun next hnext => ?_⟩
    cases hnext
    cases shown with
    | false => exact Nat.lt_of_succ_lt three
    | true => rw [four (h rfl)]; decide

namespace Session

variable {σ : Type}

/-! ## The relation -/

/-- A session stands there. -/
structure Stands (s : Session σ) (globals : FrameId) (a : Stance σ) : Prop where
  chain : s.chain = .wired a.statement a.slot a.printing
  sources : s.sources = a.sources
  globals : s.globals = globals
  evaluation : s.evaluation = a.evaluation
  readStep : s.readStep = Wiring.read
  errorStep : s.errorStep = Wiring.handleError

variable {s : Session σ} {globals : FrameId} {a : Stance σ}

/-! Output leaves a session where it stands. -/

theorem Stands.writeOut (h : s.Stands globals a) (line : String) : (s.writeOut line).1.Stands globals a := { h with }

theorem Stands.writeErr (h : s.Stands globals a) (line : String) : (s.writeErr line).1.Stands globals a := { h with }

theorem Stands.flushOut (h : s.Stands globals a) : s.flushOut.1.Stands globals a := { h with }

theorem Stands.flushErr (h : s.Stands globals a) : s.flushErr.1.Stands globals a := { h with }

theorem Stands.writeErrLines (lines : List String) (h : s.Stands globals a) :
    (s.writeErrLines lines).1.Stands globals a := by
  induction lines generalizing s with
  | nil => exact h
  | cons line lines ih =>
    have hw := h.writeErr line
    rw [Session.writeErrLines]
    split
    · next hs => rwa [hs] at hw
    · next hs =>
      rw [hs] at hw
      exact ih hw

/-- The invocation of a task that is admitted can be traced. -/
theorem Stands.showTrace (h : s.Stands globals a) {t : Task} (ht : a.Admits t) :
    ∃ s', s.showTrace (t.invocation globals) = .ok s' ∧ s'.Stands globals a := by
  unfold Session.showTrace
  split
  · exact ⟨s, rfl, h⟩
  · obtain ⟨hi, hnext⟩ := ht.registered globals
    have hl := (Chain.wired_linked a.statement a.slot a.printing).links_eq s.traceDepth ⟨hi, hnext⟩
    rw [h.chain, Chain.trace, hl]
    exact ⟨_, rfl, h.writeErr _⟩

/-! ## Performing a task -/

theorem Stands.withChain (h : s.Stands globals a) {b : Stance σ} (hs : b.sources = a.sources)
    (he : b.evaluation = a.evaluation) :
    ({ s with chain := .wired b.statement b.slot b.printing } : Session σ).Stands globals b :=
  { h with chain := rfl, sources := h.sources.trans hs.symm, evaluation := h.evaluation.trans he.symm }

theorem Stands.keepCursor (h : s.Stands globals a) (hc : a.cursor = none) (c : Cursor)
    (next : Session σ → Session σ × Outcome) :
    ∃ s', s.keepCursor Wiring.read c next = next s' ∧ s'.Stands globals (a.keep c) := by
  unfold Session.keepCursor
  by_cases he : c.isExhausted
  · have same : a.keep c = a := by rw [Stance.keep, if_pos he, ← hc]
    exact ⟨s, by rw [if_pos he], same ▸ h⟩
  · have kept : (a.keep c).slot = .cursor c := by rw [Stance.slot, Stance.keep, if_neg he]
    refine ⟨_, ?_, h.withChain (b := a.keep c) rfl rfl⟩
    rw [if_neg he, h.chain, Chain.fillSlot_read, kept]
    rfl

/-- Why a step may break off: a console, the evaluator, the printer or a channel gives way. -/
inductive Breaks (tools : Tools σ) (evaluation : σ) : Invocation → StepFailure → Prop
  | console {payload : Payload} (text : String) : Breaks tools evaluation (.reading payload) (.panic (some text))
  | fault {d : Datum} {environment : FrameId} {successor : StepId} {message : String}
      (h : (tools.evaluator.eval evaluation d environment).2 = .fault message) :
      Breaks tools evaluation (.evaluating d environment successor) (.fault message)
  | evaluator {d : Datum} {environment : FrameId} {successor : StepId} {text : Option String}
      (h : (tools.evaluator.eval evaluation d environment).2 = .panic text) :
      Breaks tools evaluation (.evaluating d environment successor) (.panic text)
  | printer {i : Invocation} {v : Value} {text : Option String} (hi : i.id = Wiring.print ∨ i.id = Wiring.handleError)
      (h : tools.printer v = .error text) : Breaks tools evaluation i (.panic text)
  | channel {i : Invocation} (hi : i.id = Wiring.print ∨ i.id = Wiring.handleError) (why : String) :
      Breaks tools evaluation i (.fault ("I/O error: " ++ why))

/-- What performing a task comes to: the stance it leads to, and the next task or the failure that is followed by it. -/
def Performs (reply : Replier σ) (printer : Printer) (globals : FrameId) (a : Stance σ) (t : Task)
    (result : Session σ × Outcome) : Prop :=
  ∃ broken, result.1.Stands globals (a.next reply globals broken t).1 ∧
    (result.2 = .next ((a.next reply globals broken t).2.map (·.invocation globals)) ∨
      ∃ why, result.2 = .failed why ∧ Breaks ⟨reply.evaluator, printer⟩ a.evaluation (t.invocation globals) why ∧
        (a.next reply globals broken t).2 = some (t.afterFailure why))

theorem Stands.afterRead (h : s.Stands globals a) (hc : a.cursor = none) (payload : Payload) (c : Cursor)
    (result : Except ReadFailure (Option Datum)) :
    (s.afterRead (.reading payload) c result).1.Stands globals (a.afterRead c result).1 ∧
    ((s.afterRead (.reading payload) c result).2 = .next ((a.afterRead c result).2.map (·.invocation globals)) ∨
      ∃ text, (s.afterRead (.reading payload) c result).2 = .failed (.panic (some text)) ∧
        (a.afterRead c result).2 = some (.report { message := (StepFailure.panic (some text)).message })) := by
  match result with
  | .ok none =>
    obtain ⟨s', hk, h'⟩ := h.keepCursor hc c fun s => (s, .ofInvocation (s.chain.invoke Wiring.read .none))
    rw [Session.afterRead, Invocation.reading, hk, h'.chain, Chain.invoke_read]
    exact ⟨h', .inl rfl⟩
  | .error (.text error excerpt) =>
    obtain ⟨s', hk, h'⟩ := h.keepCursor hc c fun s =>
      (s, .ofInvocation (s.chain.raise Wiring.read (readReport c (.text error excerpt))))
    rw [Session.afterRead, Invocation.reading, hk, h'.chain, Chain.raise_read]
    exact ⟨h', .inl rfl⟩
  | .error (.input .interrupted) => exact ⟨h, .inl rfl⟩
  | .error (.input (.collapsed text)) => exact ⟨h, .inr ⟨text, rfl, rfl⟩⟩
  | .error (.input (.unreadable name why)) =>
    refine ⟨h, .inl ?_⟩
    rw [Session.afterRead, Invocation.reading, h.chain, Chain.raise_read]
    · rfl
    · nofun
    · nofun
  | .error (.input (.console why)) =>
    refine ⟨h, .inl ?_⟩
    rw [Session.afterRead, Invocation.reading, h.chain, Chain.raise_read]
    · rfl
    · nofun
    · nofun
  | .ok (some d) =>
    have target : (if c.isConsole then s.chain.ensureBefore Wiring.read .print else .ok (Wiring.read, s.chain)) =
        .ok (if c.isConsole then Wiring.print else Wiring.read,
            .wired a.statement a.slot (a.printing || c.isConsole)) := by
      rw [h.chain]
      cases c.isConsole
      · simp
      · simp
    rw [Session.afterRead, Invocation.reading]
    dsimp only
    rw [target]
    dsimp only
    rw [Chain.fillSlot_read, update]
    dsimp only
    rw [Chain.setStatement_read, update]
    dsimp only
    refine ⟨h.withChain (b := (a.afterRead c (.ok (some d))).1) rfl rfl, .inl ?_⟩
    rw [Chain.follow]
    dsimp only
    rw [Chain.invoke_eval, h.globals]
    rfl

theorem Stands.takeCursor_some (h : s.Stands globals a) {c : Cursor} {later : List Source}
    (ht : a.take? = some (c, later)) (statement : Option Datum) :
    ∃ s', ({ s with chain := .wired statement a.slot a.printing } : Session σ).takeCursor Wiring.read =
      .ok (some c, s') ∧
      s'.Stands globals { a.reading later with statement } ∧ s'.written = s.written := by
  rw [Session.takeCursor, Chain.takeSlot_read, Stance.slot]
  unfold Stance.take? at ht
  split at ht
  · next hc =>
    cases ht
    rw [hc]
    exact ⟨_, rfl, { h with chain := rfl }, rfl⟩
  · next source _ hc hs =>
    cases ht
    rw [hc, h.sources, hs]
    exact ⟨_, rfl, { h with chain := rfl, sources := rfl }, rfl⟩
  · cases ht

theorem Stands.takeCursor_none (h : s.Stands globals a) (ht : a.take? = none) (statement : Option Datum) :
    ∃ s', ({ s with chain := .wired statement a.slot a.printing } : Session σ).takeCursor Wiring.read = .ok (none, s') ∧
      s'.Stands globals { a.reading [] with statement } ∧ s'.written = s.written := by
  rw [Session.takeCursor, Chain.takeSlot_read, Stance.slot]
  unfold Stance.take? at ht
  split at ht
  · cases ht
  · cases ht
  · next hc hs =>
    rw [hc, h.sources, hs]
    exact ⟨_, rfl, { h with chain := rfl, sources := rfl }, rfl⟩

variable {reply : Replier σ} {printer : Printer}

theorem Stands.perform_read (h : s.Stands globals a) (payload : Payload) :
    Performs reply printer globals a (.read payload) (s.perform ⟨reply.evaluator, printer⟩ (.reading payload)) := by
  rw [perform, h.chain, Invocation.reading, Chain.stage_read]
  dsimp only
  rw [read, h.chain, Chain.dropStatement_read, update]
  dsimp only
  cases ht : a.take? with
  | none =>
    obtain ⟨s₁, hs, h₁, -⟩ := h.takeCursor_none ht none
    rw [hs]
    refine ⟨none, ?_⟩
    rw [Stance.next_read_none ht]
    exact ⟨h₁, .inl rfl⟩
  | some taken =>
    obtain ⟨s₁, hs, h₁, -⟩ := h.takeCursor_some ht none
    rw [hs]
    dsimp only
    rw [← Cursor.ready]
    rcases hread : taken.1.ready.read with ⟨c, result⟩
    have h₂ : ({ s₁ with written := c.echoed.reverse ++ s₁.written } : Session σ).Stands globals (a.reading taken.2) :=
      { h₁ with }
    obtain ⟨hstands, hnext⟩ := h₂.afterRead rfl payload c.dropEcho result
    refine ⟨none, ?_⟩
    rw [Stance.next_read_some ht hread]
    refine ⟨hstands, hnext.imp_right ?_⟩
    rintro ⟨text, hfailed, htask⟩
    exact ⟨_, hfailed, .console text, htask⟩

theorem Stands.perform_evaluate (h : s.Stands globals a) {d : Datum} {shown : Bool}
    (ht : a.Admits (.evaluate d shown)) :
    Performs reply printer globals a (.evaluate d shown)
      (s.perform ⟨reply.evaluator, printer⟩ ((Task.evaluate d shown).invocation globals)) := by
  rcases hreply : reply a.evaluation d globals with ⟨evaluation, answer⟩
  have verdict : reply.evaluator.eval a.evaluation d globals = (evaluation, answer.verdict) := by
    rw [Replier.evaluator]
    dsimp only
    rw [hreply]
  have next : a.next reply globals none (.evaluate d shown) =
      ({ a with evaluation }, some (Stance.afterEval shown answer)) := by
    rw [Stance.next, hreply]
  have moved : ({ s with evaluation } : Session σ).Stands globals { a with evaluation } := { h with evaluation := rfl }
  rw [perform, h.chain, Task.invocation, Invocation.evaluating, Chain.stage_eval]
  dsimp only
  rw [eval]
  dsimp only [Replier.evaluator]
  rw [h.evaluation, hreply]
  refine ⟨none, ?_⟩
  rw [next]
  dsimp only
  cases answer with
  | value v =>
    refine ⟨moved, .inl ?_⟩
    dsimp only [Reply.verdict]
    rw [Chain.follow, h.chain]
    dsimp only
    cases shown with
    | false =>
      rw [if_neg (by decide), Chain.invoke_read]
      rfl
    | true =>
      rw [ht rfl, if_pos rfl, Chain.invoke_print]
      rfl
  | raised message expression =>
    refine ⟨moved, .inl ?_⟩
    dsimp only [Reply.verdict]
    rw [h.chain, Chain.raise_eval]
    rfl
  | fault message => exact ⟨moved, .inr ⟨_, rfl, .fault (congrArg Prod.snd verdict), rfl⟩⟩
  | panic text => exact ⟨moved, .inr ⟨_, rfl, .evaluator (congrArg Prod.snd verdict), rfl⟩⟩

theorem Stands.perform_print (h : s.Stands globals a) {v : Value} (ht : a.Admits (.print v)) :
    Performs reply printer globals a (.print v) (s.perform ⟨reply.evaluator, printer⟩ (.printing v)) := by
  have broken {s' : Session σ} (h' : s'.Stands globals a) {why : StepFailure}
      (hb : Breaks ⟨reply.evaluator, printer⟩ a.evaluation (.printing v) why) :
      Performs reply printer globals a (.print v) (s', .failed why) :=
    ⟨some why, h', .inr ⟨why, rfl, hb, rfl⟩⟩
  have stage : s.chain.stage Wiring.print = .ok .print := by
    rw [h.chain, show a.printing = true from ht, Chain.stage_print]
  rw [perform, Invocation.printing, stage]
  dsimp only
  rw [print]
  dsimp only
  split
  · next text hp => exact broken h (.printer (.inl rfl) hp)
  · next text hp =>
    have written := h.writeOut text
    split
    · next why hw =>
      rw [hw] at written
      exact broken written (.channel (.inl rfl) why)
    · next hw =>
      rw [hw] at written
      have flushed := written.flushOut
      split
      · next why hf =>
        rw [hf] at flushed
        exact broken flushed (.channel (.inl rfl) why)
      · next hf =>
        rw [hf] at flushed
        refine ⟨none, flushed, .inl ?_⟩
        rw [Chain.follow, flushed.chain]
        dsimp only
        rw [Chain.invoke_read]
        rfl

theorem Stands.resume (h : s.Stands globals a) (r : Report) :
    s.resumeAfterReport (.reporting r) = (s, .next (some (.reading (.resume true)))) := by
  have cleared : (if a.slot.isCursor = true then (.ok (.wired a.statement a.slot a.printing) : Except StepFailure Chain)
      else (Chain.wired a.statement a.slot a.printing).fillSlot Wiring.read .none) =
      .ok (.wired a.statement a.slot a.printing) := by
    rw [Chain.fillSlot_read, Stance.slot]
    cases a.cursor <;> rfl
  rw [resumeAfterReport, Invocation.reporting]
  dsimp only
  rw [h.chain, Chain.slot_read]
  dsimp only
  rw [cleared, update, Chain.follow]
  dsimp only
  rw [Chain.invoke_read]
  exact Prod.ext (by rw [← h.chain]) rfl

/-- The end of a report is broken by the printer only. -/
theorem reportTail_broken {tools : Tools σ} {r : Report} {text : Option String}
    (hb : (reportTail tools r).2 = some text) :
    ∃ v, tools.printer v = .error text := by
  unfold reportTail at hb
  dsimp only at hb
  split at hb
  · cases hb
  · next v _ =>
    split at hb
    · cases hb
    · next hp =>
      cases hb
      exact ⟨v, hp⟩

theorem Stands.perform_report (h : s.Stands globals a) (r : Report) :
    Performs reply printer globals a (.report r) (s.perform ⟨reply.evaluator, printer⟩ (.reporting r)) := by
  have broken {s' : Session σ} (h' : s'.Stands globals a) {why : StepFailure}
      (hb : Breaks ⟨reply.evaluator, printer⟩ a.evaluation (.reporting r) why) :
      Performs reply printer globals a (.report r) (s', .failed why) :=
    ⟨none, h', .inr ⟨why, rfl, hb, rfl⟩⟩
  rw [perform, h.chain, Invocation.reporting, Chain.stage_handleError]
  dsimp only
  rw [handleError, h.chain]
  dsimp only
  rw [Chain.shared_handleError]
  dsimp only
  split
  · next text hp =>
    cases hs : a.statement with
    | none => rw [hs] at hp; cases hp
    | some d =>
      rw [hs] at hp
      cases hd : printer d.toValue with
      | ok rendered => simp [hd, Except.map, Functor.map] at hp
      | error text' =>
        have same : text' = text := by simpa [hd, Except.map, Functor.map] using hp
        exact broken h (.printer (.inr rfl) (same ▸ hd))
  · next statement hp =>
    generalize hlines : ("error: " ++ r.message) :: statement.toList.map ("Statement: " ++ ·) ++
      (reportTail ⟨reply.evaluator, printer⟩ r).1 = lines
    have written := h.writeErrLines lines
    split
    · next why hw =>
      rw [hw] at written
      exact broken written (.channel (.inr rfl) why)
    · next hw =>
      rw [hw] at written
      split
      · next text hb =>
        obtain ⟨v, hv⟩ := reportTail_broken hb
        exact broken written (.printer (.inr rfl) hv)
      · have flushed := written.flushErr
        split
        · next why hf =>
          rw [hf] at flushed
          exact broken flushed (.channel (.inr rfl) why)
        · next hf =>
          rw [hf] at flushed
          have resumed := flushed.resume r
          rw [Invocation.reporting] at resumed
          rw [resumed]
          exact ⟨none, flushed, .inl rfl⟩

/-- **A task is performed as its stance says**, or breaks off for one of the known reasons. -/
theorem Stands.perform (h : s.Stands globals a) (reply : Replier σ) (printer : Printer) {t : Task} (ht : a.Admits t) :
    Performs reply printer globals a t (s.perform ⟨reply.evaluator, printer⟩ (t.invocation globals)) := by
  cases t with
  | read payload => exact h.perform_read payload
  | evaluate d shown => exact h.perform_evaluate ht
  | print v => exact h.perform_print ht
  | report r => exact h.perform_report r

/-! ## Taking a step -/

theorem Stands.afterFailure (h : s.Stands globals a) (t : Task) (why : StepFailure) :
    s.afterFailure (t.invocation globals).id why = .ok ((t.afterFailure why).invocation globals) := by
  have report (hne : (t.invocation globals).id ≠ Wiring.handleError) :
      s.afterFailure (t.invocation globals).id why = .ok (.reporting { message := why.message }) := by
    rw [Session.afterFailure, h.errorStep, if_neg hne, h.chain, Chain.invoke_handleError]
  cases t with
  | read payload => exact report (by decide : Wiring.read ≠ Wiring.handleError)
  | evaluate d shown => exact report (by decide : Wiring.eval ≠ Wiring.handleError)
  | print v => exact report (by decide : Wiring.print ≠ Wiring.handleError)
  | report r =>
    rw [Session.afterFailure, h.errorStep,
      if_pos (show (Task.invocation globals (.report r)).id = Wiring.handleError from rfl), h.chain, h.readStep,
      Chain.invoke_read]
    rfl

/-- The status of a session that has this to do next, or nothing any more. -/
def statusOf (globals : FrameId) : Option Task → Status
  | some t => .running (t.invocation globals)
  | none => .halted

/-- **Every step of a session is a step of its stance.** -/
theorem Stands.step (h : s.Stands globals a) (reply : Replier σ) (printer : Printer) {t : Task} (ht : a.Admits t) :
    ∃ s' broken, s.step ⟨reply.evaluator, printer⟩ (t.invocation globals) =
        (s', statusOf globals (a.next reply globals broken t).2) ∧
      s'.Stands globals (a.next reply globals broken t).1 := by
  obtain ⟨s₁, traced, h₁⟩ := h.showTrace ht
  obtain ⟨broken, h₂, outcome⟩ := h₁.perform reply printer ht
  rcases hp : s₁.perform ⟨reply.evaluator, printer⟩ (t.invocation globals) with ⟨s₂, result⟩
  rw [hp] at h₂ outcome
  refine ⟨s₂, broken, ?_, h₂⟩
  rw [Session.step, traced]
  dsimp only
  rw [hp]
  obtain rfl | ⟨why, rfl, -, next⟩ := outcome
  · cases (a.next reply globals broken t).2 <;> rfl
  · dsimp only
    rw [h₂.afterFailure t why, next]
    rfl

end Session

end LispSession
