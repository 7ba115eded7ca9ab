import LispSession.Proofs.Session.Wiring
import LispSession.Proofs.Session.PlainLoop
/-!
# A session does what the plain loop does

On channels that refuse nothing, and without a trace, a session hands its evaluator the same expressions as the plain
loop and writes the same transcript, and it always comes to its end.  The proof follows the session from one read to the
next: `Tracks` relates it to the loop in between steps, every step keeps the relation, and `drain_steps` puts the steps
of one source together.
-/
namespace LispSession

/-- A channel that refuses nothing. -/
structure Channel.Healthy (c : Channel) : Prop where
  writes : ∀ history size, c.policy.write history size = .whole
  flushes : ∀ history, c.policy.flush history = none

namespace Channel

theorem healthy_healthy : healthy.Healthy := ⟨fun _ _ => rfl, fun _ => rfl⟩

theorem Healthy.write {c : Channel} (h : c.Healthy) (text : String) :
    ∃ c', c'.Healthy ∧ c.write text = (c', text.utf8ByteSize, none) := by
  unfold Channel.write
  dsimp only
  split
  · next hz => exact ⟨c, h, by rw [beq_iff_eq.1 hz]⟩
  · rw [h.writes]
    refine ⟨_, ?_, rfl⟩
    exact ⟨h.writes, h.flushes⟩

theorem Healthy.flush {c : Channel} (h : c.Healthy) : ∃ c', c'.Healthy ∧ c.flush = (c', none) := by
  unfold Channel.flush
  rw [h.flushes]
  refine ⟨_, ?_, rfl⟩
  exact ⟨h.writes, h.flushes⟩

end Channel

namespace Session

variable {σ : Type}

/-! ## Several steps -/

/-- So many steps lead from one status to another. -/
def Steps (tools : Tools σ) (n : Nat) (s : Session σ) (status : Status) (s' : Session σ) (status' : Status) : Prop :=
  ∀ fuel, runFor tools (n + fuel) s status = runFor tools fuel s' status'

theorem Steps.one {tools : Tools σ} {s s' : Session σ} {i : Invocation} {status : Status}
    (h : s.step tools i = (s', status)) : Steps tools 1 s (.running i) s' status := fun fuel => by
  rw [Nat.add_comm, runFor, h]

theorem Steps.trans {tools : Tools σ} {n m : Nat} {s s' s'' : Session σ} {status status' status'' : Status}
    (h : Steps tools n s status s' status') (h' : Steps tools m s' status' s'' status'') :
    Steps tools (n + m) s status s'' status'' := fun fuel => by
  rw [Nat.add_assoc, h, h']

/-! ## The relation -/

section Tracking

/-- A session stands where the loop stands: what its chain holds, the sources to come, and all that has been done so
far. -/
structure Tracks (s : Session (σ × List (Datum × FrameId))) (globals : FrameId) (statement : Option Datum)
    (slot : Payload) (printing : Bool) (sources : List Source) (r : Dialogue σ) : Prop where
  chain : s.chain = .wired statement slot printing
  sources : s.sources = sources
  globals : s.globals = globals
  evaluation : s.evaluation = (r.evaluation, r.handed)
  stdout : s.stdout.Healthy
  stderr : s.stderr.Healthy
  readStep : s.readStep = Wiring.read
  errorStep : s.errorStep = Wiring.handleError
  untraced : s.traceDepth = 0
  written : s.written = r.written.reverse

variable {s : Session (σ × List (Datum × FrameId))} {globals : FrameId} {statement : Option Datum} {slot : Payload}
  {printing : Bool} {sources : List Source} {r : Dialogue σ}

theorem Tracks.withChain (h : s.Tracks globals statement slot printing sources r) (statement' : Option Datum)
    (slot' : Payload) (printing' : Bool) :
    ({ s with chain := .wired statement' slot' printing' } : Session _).Tracks globals statement' slot'
      printing' sources r :=
  { h with chain := rfl }

theorem Tracks.writeErr (h : s.Tracks globals statement slot printing sources r) (line : String) :
    ∃ s', s.writeErr line = (s', none) ∧
      s'.Tracks globals statement slot printing sources (r.writeLines .err [line]) := by
  obtain ⟨stderr, healthy, hw⟩ := h.stderr.write (line ++ "\n")
  have written : Writing.whole .err (line ++ "\n") :: s.written = (r.writeLines .err [line]).written.reverse := by
    simp [h.written, Dialogue.writeLines]
  refine ⟨_, by rw [Session.writeErr, hw], ?_⟩
  exact { h with stderr := healthy, written }

theorem Tracks.writeErrLines : ∀ (lines : List String) {s : Session (σ × List (Datum × FrameId))} {r : Dialogue σ},
    s.Tracks globals statement slot printing sources r →
      ∃ s', s.writeErrLines lines = (s', none) ∧
        s'.Tracks globals statement slot printing sources (r.writeLines .err lines)
  | [], s, r, h => ⟨s, rfl, by simpa [Dialogue.writeLines] using h⟩
  | line :: lines, s, r, h => by
    obtain ⟨s₁, hw, h₁⟩ := h.writeErr line
    obtain ⟨s₂, hws, h₂⟩ := h₁.writeErrLines lines
    refine ⟨s₂, by rw [Session.writeErrLines, hw]; exact hws, ?_⟩
    simpa [Dialogue.writeLines] using h₂

theorem Tracks.writeOut (h : s.Tracks globals statement slot printing sources r) (line : String) :
    ∃ s', s.writeOut line = (s', none) ∧
      s'.Tracks globals statement slot printing sources (r.writeLines .out [line]) := by
  obtain ⟨stdout, healthy, hw⟩ := h.stdout.write (line ++ "\n")
  have written : Writing.whole .out (line ++ "\n") :: s.written = (r.writeLines .out [line]).written.reverse := by
    simp [h.written, Dialogue.writeLines]
  refine ⟨_, by rw [Session.writeOut, hw], ?_⟩
  exact { h with stdout := healthy, written }

theorem Tracks.flushOut (h : s.Tracks globals statement slot printing sources r) :
    ∃ s', s.flushOut = (s', none) ∧ s'.Tracks globals statement slot printing sources r := by
  obtain ⟨stdout, healthy, hf⟩ := h.stdout.flush
  refine ⟨_, by rw [Session.flushOut, hf], ?_⟩
  exact { h with stdout := healthy }

theorem Tracks.flushErr (h : s.Tracks globals statement slot printing sources r) :
    ∃ s', s.flushErr = (s', none) ∧ s'.Tracks globals statement slot printing sources r := by
  obtain ⟨stderr, healthy, hf⟩ := h.stderr.flush
  refine ⟨_, by rw [Session.flushErr, hf], ?_⟩
  exact { h with stderr := healthy }

/-! ## The steps -/

variable {tools : Tools (σ × List (Datum × FrameId))}

theorem step_of_next (untraced : s.traceDepth = 0) {i j : Invocation} {s' : Session (σ × List (Datum × FrameId))}
    (hp : s.perform tools i = (s', .next (some j))) : s.step tools i = (s', .running j) := by
  rw [step, showTrace, if_pos untraced]
  dsimp only
  rw [hp]

theorem step_of_end (untraced : s.traceDepth = 0) {i : Invocation} {s' : Session (σ × List (Datum × FrameId))}
    (hp : s.perform tools i = (s', .next none)) : s.step tools i = (s', .halted) := by
  rw [step, showTrace, if_pos untraced]
  dsimp only
  rw [hp]

/-- What breaks off is reported, unless it was a report. -/
theorem step_of_failed (untraced : s.traceDepth = 0) {i : Invocation} {s' : Session (σ × List (Datum × FrameId))}
    {why : StepFailure} (hp : s.perform tools i = (s', .failed why))
    (h' : s'.Tracks globals statement slot printing sources r) (hi : i.id ≠ Wiring.handleError) :
    s.step tools i = (s', .running (.reporting { message := why.message })) := by
  rw [step, showTrace, if_pos untraced]
  dsimp only
  rw [hp]
  dsimp only
  rw [afterFailure, h'.errorStep, if_neg hi, h'.chain, Chain.invoke_handleError]

variable (reply : Replier σ) (render : Value → String)

theorem reportTail_tools (report : Report) :
    reportTail (reply.tools render) report =
      ((report.expression.map fun v => "AST: " ++ render v).toList ++ report.diagnostic.toList, none) := by
  unfold reportTail
  cases report.expression <;> rfl

theorem Tracks.resume (h : s.Tracks globals statement slot printing sources r)
    (hslot : slot.isCursor = true ∨ slot = .none) (report : Report) :
    s.resumeAfterReport (.reporting report) = (s, .next (some (.reading (.resume true)))) := by
  have cleared : (if slot.isCursor = true then (.ok (.wired statement slot printing) : Except StepFailure Chain)
      else (Chain.wired statement slot printing).fillSlot Wiring.read .none) =
          .ok (.wired statement slot printing) := by
    obtain hc | rfl := hslot
    · rw [if_pos hc]
    · rw [if_neg (by decide), Chain.fillSlot_read]
  rw [resumeAfterReport, Invocation.reporting]
  dsimp only
  rw [h.chain, Chain.slot_read]
  dsimp only
  rw [cleared, update, Chain.follow]
  dsimp only
  rw [Chain.invoke_read]
  exact Prod.ext (by rw [← h.chain]) rfl

theorem Tracks.step_reporting (h : s.Tracks globals statement slot printing sources r)
    (hslot : slot.isCursor = true ∨ slot = .none) (report : Report) :
    ∃ s', s.step (reply.tools render) (.reporting report) = (s', .running (.reading (.resume true))) ∧
      s'.Tracks globals statement slot printing sources (r.report render statement report) := by
  have lines :
      ("error: " ++ report.message) :: (statement.map fun d => render d.toValue).toList.map ("Statement: " ++ ·) ++
        ((report.expression.map fun v => "AST: " ++ render v).toList ++ report.diagnostic.toList) =
      Dialogue.reportLines render statement report := by
    cases statement <;> simp [Dialogue.reportLines]
  have rendered : (statement.mapM fun d => (reply.tools render).printer d.toValue) =
      .ok (statement.map fun d => render d.toValue) := by
    cases statement <;> rfl
  obtain ⟨s₁, hw, h₁⟩ := h.writeErrLines (Dialogue.reportLines render statement report)
  obtain ⟨s₂, hf, h₂⟩ := h₁.flushErr
  refine ⟨s₂, step_of_next h.untraced ?_, h₂⟩
  rw [perform, h.chain, Invocation.reporting, Chain.stage_handleError]
  dsimp only
  rw [handleError, h.chain]
  dsimp only
  rw [Chain.shared_handleError]
  dsimp only
  rw [rendered, reportTail_tools]
  dsimp only
  rw [lines, hw]
  dsimp only
  rw [hf]
  exact h₂.resume hslot report

theorem Tracks.step_printing (h : s.Tracks globals statement slot true sources r) (v : Value) :
    ∃ s', s.step (reply.tools render) (.printing v) = (s', .running (.reading .none)) ∧
      s'.Tracks globals statement slot true sources (r.writeLines .out [render v]) := by
  obtain ⟨s₁, hw, h₁⟩ := h.writeOut (render v)
  obtain ⟨s₂, hf, h₂⟩ := h₁.flushOut
  refine ⟨s₂, step_of_next h.untraced ?_, h₂⟩
  rw [perform, h.chain, Invocation.printing, Chain.stage_print]
  dsimp only
  rw [print]
  dsimp only [Replier.tools]
  rw [hw]
  dsimp only
  rw [hf]
  dsimp only
  rw [h₂.chain, Chain.follow]
  dsimp only
  rw [Chain.invoke_read]
  rfl

/-- What the step that evaluates makes of an answer. -/
def outcomeOf (chain : Chain) (successor : StepId) : Reply → Outcome
  | .value v => .ofFollow ((chain.invoke successor (.result v)).map some)
  | .raised message expression => .next (some (.reporting { message, expression }))
  | .fault message => .failed (.fault message)
  | .panic text => .failed (.panic text)

theorem Tracks.perform_evaluating (h : s.Tracks globals statement slot printing sources r) (d : Datum)
    (successor : StepId) {evaluation : σ} {answer : Reply}
    (hreply : reply r.evaluation d globals = (evaluation, answer)) :
    ∃ s', s'.Tracks globals statement slot printing sources
        { r with evaluation, handed := r.handed ++ [(d, globals)] } ∧
      s.perform (reply.tools render) (.evaluating d globals successor) = (s', outcomeOf s'.chain successor answer) := by
  refine ⟨{ s with evaluation := (evaluation, r.handed ++ [(d, globals)]) }, { h with evaluation := rfl }, ?_⟩
  rw [perform, h.chain, Invocation.evaluating, Chain.stage_eval]
  dsimp only
  rw [eval]
  dsimp only [Replier.tools, Replier.recording]
  rw [h.evaluation]
  dsimp only
  rw [hreply]
  cases answer with
  | value v => rw [h.chain]; rfl
  | raised message expression =>
    dsimp only [Reply.verdict, outcomeOf]
    rw [h.chain, Chain.raise_eval]
    rfl
  | fault message => rw [h.chain]; rfl
  | panic text => rw [h.chain]; rfl

/-- **A datum is evaluated once, and its value or what went wrong is shown**, on the way to the next read. -/
theorem Tracks.steps_evaluating {d : Datum} {c : Cursor}
    (h : s.Tracks globals (some d) (.cursor c) printing sources r) {console : Bool} {successor : StepId}
    (hs : console = true ∧ printing = true ∧ successor = Wiring.print ∨ console = false ∧ successor = Wiring.read) :
    ∃ n ≤ 2, ∃ s' payload,
      Steps (reply.tools render) n s (.running (.evaluating d globals successor)) s' (.running (.reading payload)) ∧
      s'.Tracks globals (some d) (.cursor c) printing sources (r.evaluate reply render globals console d) := by
  rcases hreply : reply r.evaluation d globals with ⟨evaluation, answer⟩
  obtain ⟨s₁, h₁, hp⟩ := h.perform_evaluating reply render d successor hreply
  have reported {report : Report} (one : s.step (reply.tools render) (.evaluating d globals successor) =
        (s₁, .running (.reporting report))) :
      ∃ n ≤ 2, ∃ s' payload,
        Steps (reply.tools render) n s (.running (.evaluating d globals successor)) s' (.running (.reading payload)) ∧
        s'.Tracks globals (some d) (.cursor c) printing sources
          (Dialogue.report render { r with evaluation, handed := r.handed ++ [(d, globals)] } (some d) report) := by
    obtain ⟨s₂, two, h₂⟩ := h₁.step_reporting reply render (.inl rfl) report
    exact ⟨2, Nat.le_refl 2, s₂, _, (Steps.one one).trans (Steps.one two), h₂⟩
  rw [Dialogue.evaluate, hreply]
  cases answer with
  | value v =>
    obtain ⟨rfl, rfl, rfl⟩ | ⟨rfl, rfl⟩ := hs
    · rw [outcomeOf, h₁.chain, Chain.invoke_print] at hp
      obtain ⟨s₂, two, h₂⟩ := h₁.step_printing reply render v
      exact ⟨2, Nat.le_refl 2, s₂, _, (Steps.one (step_of_next h.untraced hp)).trans (Steps.one two), h₂⟩
    · rw [outcomeOf, h₁.chain, Chain.invoke_read] at hp
      exact ⟨1, by omega, s₁, _, Steps.one (step_of_next h.untraced hp), h₁⟩
  | raised message expression => exact reported (step_of_next h.untraced hp)
  | fault message => exact reported (step_of_failed h.untraced hp h₁ (Nat.zero_ne_add_one 1))
  | panic text =>
    have same : (StepFailure.panic text).message = "panic: " ++ text.getD "unknown panic" := by cases text <;> rfl
    dsimp only
    rw [← same]
    exact reported (step_of_failed h.untraced hp h₁ (Nat.zero_ne_add_one 1))

/-! ## From one read to the next -/

/-- About to read from a cursor: it is in its slot, or at the beginning of the next source. -/
def Poised (s : Session (σ × List (Datum × FrameId))) (globals : FrameId) (c : Cursor) (later : List Source)
    (r : Dialogue σ) : Prop :=
  ∃ statement printing, s.Tracks globals statement (.cursor c) printing later r ∨
    ∃ source, c = .start source ∧ s.Tracks globals statement .none printing (source :: later) r

theorem Poised.takeCursor {c : Cursor} {later : List Source} (h : s.Poised globals c later r) :
    ∃ statement slot printing sources, s.Tracks globals statement slot printing sources r ∧
      ∃ s', ({ s with chain := .wired none slot printing } : Session _).takeCursor Wiring.read = .ok (some c, s') ∧
        s'.Tracks globals none .none printing later r := by
  obtain ⟨statement, printing, h | ⟨source, rfl, h⟩⟩ := h
  · refine ⟨statement, .cursor c, printing, later, h, _, ?_, h.withChain none .none printing⟩
    rw [Session.takeCursor, Chain.takeSlot_read]
  · refine ⟨statement, .none, printing, source :: later, h,
      { s with chain := .wired none .none printing, sources := later }, ?_, { h with chain := rfl, sources := rfl }⟩
    rw [Session.takeCursor, Chain.takeSlot_read]
    dsimp only
    rw [h.sources]

theorem Poised.untraced {c : Cursor} {later : List Source} (h : s.Poised globals c later r) : s.traceDepth = 0 := by
  obtain ⟨_, _, h | ⟨_, _, h⟩⟩ := h <;> exact h.untraced

/-- The step that reads, up to the point where it decides what comes next. -/
theorem Poised.perform_reading {c : Cursor} {later : List Source} (h : s.Poised globals c later r)
    (tools : Tools (σ × List (Datum × FrameId))) (payload : Payload) {c' : Cursor}
    {result : Except ReadFailure (Option Datum)} (hread : c.ready.read = (c', result)) :
    ∃ (s' : Session (σ × List (Datum × FrameId))) (printing : Bool),
      s'.Tracks globals none .none printing later (r.prompted c') ∧
      s.perform tools (.reading payload) = s'.afterRead (.reading payload) c'.dropEcho result := by
  obtain ⟨statement, slot, printing, sources, h, s₁, ht, h₁⟩ := h.takeCursor
  refine ⟨{ s₁ with written := c'.echoed.reverse ++ s₁.written }, printing,
    { h₁ with written := by simp [h₁.written, Dialogue.prompted] }, ?_⟩
  rw [perform, h.chain, Invocation.reading, Chain.stage_read]
  dsimp only
  rw [read, h.chain, Chain.dropStatement_read, update]
  dsimp only
  rw [ht]
  dsimp only
  rw [← Cursor.ready, hread]

theorem Tracks.keepCursor (h : s.Tracks globals statement .none printing sources r) (c : Cursor)
    (next : Session (σ × List (Datum × FrameId)) → Session (σ × List (Datum × FrameId)) × Outcome) :
    ∃ s', s.keepCursor Wiring.read c next = next s' ∧
      s'.Tracks globals statement (if c.isExhausted then .none else .cursor c) printing sources r := by
  unfold Session.keepCursor
  split
  · exact ⟨s, rfl, h⟩
  · refine ⟨_, ?_, h.withChain statement (.cursor c) printing⟩
    rw [h.chain, Chain.fillSlot_read]
    rfl

theorem Tracks.steps_reporting (h : s.Tracks globals statement slot printing sources r)
    (hslot : slot.isCursor = true ∨ slot = .none) (report : Report) {s₀ : Session (σ × List (Datum × FrameId))}
    {i : Invocation} (one : s₀.step (reply.tools render) i = (s, .running (.reporting report))) :
    ∃ s', Steps (reply.tools render) 2 s₀ (.running i) s' (.running (.reading (.resume true))) ∧
      s'.Tracks globals statement slot printing sources (r.report render statement report) := by
  obtain ⟨s', two, h'⟩ := h.step_reporting reply render hslot report
  exact ⟨s', (Steps.one one).trans (Steps.one two), h'⟩

section Reads

variable {c c' : Cursor} {later : List Source}

/-- The cursor that is kept after a read. -/
def kept (c : Cursor) : Payload := if c.isExhausted then .none else .cursor c.dropEcho

theorem kept_isCursor_or_none (c : Cursor) : (kept c).isCursor = true ∨ kept c = .none := by
  unfold kept
  split
  · exact .inr rfl
  · exact .inl rfl

theorem Poised.steps_nothing (h : s.Poised globals c later r) (payload : Payload)
    (hread : c.ready.read = (c', .ok none)) :
    ∃ s' printing, Steps (reply.tools render) 1 s (.running (.reading payload)) s' (.running (.reading .none)) ∧
      s'.Tracks globals none (kept c') printing later (r.prompted c') := by
  obtain ⟨s₁, printing, h₁, hp⟩ := h.perform_reading (reply.tools render) payload hread
  obtain ⟨s₂, hk, h₂⟩ := h₁.keepCursor c'.dropEcho fun s => (s, .ofInvocation (s.chain.invoke Wiring.read .none))
  rw [afterRead, Invocation.reading, hk, h₂.chain, Chain.invoke_read] at hp
  exact ⟨s₂, printing, Steps.one (step_of_next h.untraced hp), h₂⟩

theorem Poised.steps_syntaxError (h : s.Poised globals c later r) (payload : Payload) {error : SyntaxError}
    {excerpt : Excerpt} (hread : c.ready.read = (c', .error (.text error excerpt))) :
    ∃ s' printing,
      Steps (reply.tools render) 2 s (.running (.reading payload)) s' (.running (.reading (.resume true))) ∧
      s'.Tracks globals none (kept c') printing later ((r.prompted c').report render none
        { message := error.message, diagnostic := some (diagnosticText error excerpt) }) := by
  obtain ⟨s₁, printing, h₁, hp⟩ := h.perform_reading (reply.tools render) payload hread
  obtain ⟨s₂, hk, h₂⟩ := h₁.keepCursor c'.dropEcho fun s =>
    (s, .ofInvocation (s.chain.raise Wiring.read (readReport c'.dropEcho (.text error excerpt))))
  rw [afterRead, Invocation.reading, hk, h₂.chain, Chain.raise_read] at hp
  obtain ⟨s₃, steps, h₃⟩ := h₂.steps_reporting reply render (kept_isCursor_or_none c') _ (step_of_next h.untraced hp)
  exact ⟨s₃, printing, steps, h₃⟩

theorem Poised.steps_unreadable (h : s.Poised globals c later r) (payload : Payload) {why : InputFailure}
    (hread : c.ready.read = (c', .error (.input why))) (interrupted : why ≠ .interrupted) :
    ∃ s' printing,
      Steps (reply.tools render) 2 s (.running (.reading payload)) s' (.running (.reading (.resume true))) ∧
      s'.Tracks globals none .none printing later
        ((r.prompted c').report render none { message := Dialogue.unreadable c'.name why }) := by
  obtain ⟨s₁, printing, h₁, hp⟩ := h.perform_reading (reply.tools render) payload hread
  have one : s.step (reply.tools render) (.reading payload) =
      (s₁, .running (.reporting { message := Dialogue.unreadable c'.name why })) := by
    cases why with
    | interrupted => exact absurd rfl interrupted
    | collapsed text => exact step_of_failed h.untraced hp h₁ (by decide : Wiring.read ≠ Wiring.handleError)
    | unreadable | console =>
      rw [afterRead, Invocation.reading, h₁.chain, Chain.raise_read] at hp
      · exact step_of_next h.untraced hp
      · nofun
      · nofun
  obtain ⟨s₂, steps, h₂⟩ := h₁.steps_reporting reply render (.inr rfl) _ one
  exact ⟨s₂, printing, steps, h₂⟩

theorem Poised.steps_datum (h : s.Poised globals c later r) (payload : Payload) {d : Datum}
    (hread : c.ready.read = (c', .ok (some d))) :
    ∃ n ≤ 3, ∃ s' printing payload',
      Steps (reply.tools render) n s (.running (.reading payload)) s' (.running (.reading payload')) ∧
      s'.Tracks globals (some d) (.cursor c'.dropEcho) printing later
        ((r.prompted c').evaluate reply render globals c'.isConsole d) := by
  obtain ⟨s₁, printing, h₁, hp⟩ := h.perform_reading (reply.tools render) payload hread
  have evaluating {printing' : Bool} {target : StepId}
      (htarget : (if c'.isConsole then (Chain.wired none .none printing).ensureBefore Wiring.read .print
        else .ok (Wiring.read, .wired none .none printing)) = .ok (target, .wired none .none printing')) :
      ∃ s₂, s.step (reply.tools render) (.reading payload) = (s₂, .running (.evaluating d globals target)) ∧
        s₂.Tracks globals (some d) (.cursor c'.dropEcho) printing' later (r.prompted c') := by
    refine ⟨_, step_of_next h.untraced (hp.trans ?_), h₁.withChain (some d) (.cursor c'.dropEcho) printing'⟩
    rw [afterRead, Invocation.reading, h₁.chain]
    dsimp only
    rw [Cursor.isConsole_dropEcho, htarget]
    dsimp only
    rw [Chain.fillSlot_read, update]
    dsimp only
    rw [Chain.setStatement_read, update, Chain.follow]
    dsimp only
    rw [Chain.invoke_eval, h₁.globals]
    rfl
  by_cases hc : c'.isConsole
  · obtain ⟨s₂, one, h₂⟩ := evaluating (by rw [if_pos hc, Chain.ensureBefore_read])
    obtain ⟨n, hn, s₃, payload', steps, h₃⟩ := h₂.steps_evaluating reply render (.inl ⟨hc, rfl, rfl⟩)
    exact ⟨1 + n, by omega, s₃, true, payload', (Steps.one one).trans steps, h₃⟩
  · obtain ⟨s₂, one, h₂⟩ := evaluating (by rw [if_neg hc])
    obtain ⟨n, hn, s₃, payload', steps, h₃⟩ := h₂.steps_evaluating reply render (.inr ⟨by simpa using hc, rfl⟩)
    exact ⟨1 + n, by omega, s₃, printing, payload', (Steps.one one).trans steps, h₃⟩

end Reads

/-- Where a source that has been read leaves the session: between two sources, or at its end. -/
def Arrives (tools : Tools (σ × List (Datum × FrameId))) (bound : Nat) (s : Session (σ × List (Datum × FrameId)))
    (i : Invocation) (globals : FrameId) (later : List Source) : Dialogue σ × Bool → Prop
  | (r, true) => ∃ n ≤ bound, ∃ s' statement printing payload,
      Steps tools n s (.running i) s' (.running (.reading payload)) ∧ s'.Tracks globals statement .none printing later r
  | (r, false) => ∃ n ≤ bound, ∃ s' statement slot printing,
      Steps tools n s (.running i) s' .halted ∧ s'.Tracks globals statement slot printing later r

theorem Arrives.after {n bound bound' : Nat} {s' : Session (σ × List (Datum × FrameId))} {i i' : Invocation}
    {later : List Source} {result : Dialogue σ × Bool} (first : Steps tools n s (.running i) s' (.running i'))
    (h : Arrives tools bound s' i' globals later result) (hb : n + bound ≤ bound') :
    Arrives tools bound' s i globals later result := by
  obtain ⟨r, more⟩ := result
  cases more
  · obtain ⟨m, hm, s'', statement, slot, printing, rest, h⟩ := h
    exact ⟨n + m, by omega, s'', statement, slot, printing, first.trans rest, h⟩
  · obtain ⟨m, hm, s'', statement, printing, payload, rest, h⟩ := h
    exact ⟨n + m, by omega, s'', statement, printing, payload, first.trans rest, h⟩

/-- **A source is read by the session as by the loop.**  Each round takes at most three steps, and what is left to read
bounds the rounds. -/
theorem drain_steps (c : Cursor) (r : Dialogue σ) : ∀ {s : Session (σ × List (Datum × FrameId))} {later : List Source}
    (payload : Payload), s.Poised globals c later r →
      Arrives (reply.tools render) (3 * c.pending + 2) s (.reading payload) globals later
        (Dialogue.drain reply render globals c r) := by
  fun_induction Dialogue.drain reply render globals c r with
  | case1 c r c' hread he =>
    intro s later payload h
    obtain ⟨s', printing, steps, h'⟩ := h.steps_nothing reply render payload hread
    rw [kept, if_pos he] at h'
    exact ⟨1, by omega, s', none, printing, .none, steps, h'⟩
  | case2 c r c' hread he less ih =>
    intro s later payload h
    obtain ⟨s', printing, steps, h'⟩ := h.steps_nothing reply render payload hread
    rw [kept, if_neg he] at h'
    exact (ih .none ⟨none, printing, .inl h'⟩).after steps (by rw [Cursor.pending_dropEcho]; omega)
  | case3 c r c' d hread less ih =>
    intro s later payload h
    obtain ⟨n, hn, s', printing, payload', steps, h'⟩ := h.steps_datum reply render payload hread
    exact (ih payload' ⟨some d, printing, .inl h'⟩).after steps (by rw [Cursor.pending_dropEcho]; omega)
  | case4 c r c' error excerpt hread less =>
    rename_i he
    intro s later payload h
    obtain ⟨s', printing, steps, h'⟩ := h.steps_syntaxError reply render payload hread
    rw [kept, if_pos he] at h'
    exact ⟨2, by omega, s', none, printing, _, steps, h'⟩
  | case5 c r c' error excerpt hread less =>
    rename_i he ih
    intro s later payload h
    obtain ⟨s', printing, steps, h'⟩ := h.steps_syntaxError reply render payload hread
    rw [kept, if_neg he] at h'
    exact (ih _ ⟨none, printing, .inl h'⟩).after steps (by rw [Cursor.pending_dropEcho]; omega)
  | case6 c r c' hread =>
    intro s later payload h
    obtain ⟨s₁, printing, h₁, hp⟩ := h.perform_reading (reply.tools render) payload hread
    exact ⟨1, by omega, s₁, none, .none, printing, Steps.one (step_of_end h.untraced hp), h₁⟩
  | case7 c r c' why interrupted hread =>
    intro s later payload h
    obtain ⟨s', printing, steps, h'⟩ := h.steps_unreadable reply render payload hread interrupted
    exact ⟨2, by omega, s', none, printing, _, steps, h'⟩

/-- **The sources are taken front to back**, and the session ends where the loop ends. -/
theorem run_steps : ∀ (sources : List Source) {s : Session (σ × List (Datum × FrameId))} {r : Dialogue σ}
    {statement : Option Datum} {printing : Bool} (payload : Payload),
      s.Tracks globals statement .none printing sources r →
      ∃ n ≤ stepBound sources, ∃ s' statement' slot' printing' sources',
        Steps (reply.tools render) n s (.running (.reading payload)) s' .halted ∧
        s'.Tracks globals statement' slot' printing' sources' (Dialogue.run reply render globals sources r)
  | [], s, r, statement, printing, payload, h => by
    refine ⟨1, by decide, _, none, .none, printing, [], Steps.one (step_of_end h.untraced ?_),
      h.withChain none .none printing⟩
    rw [perform, h.chain, Invocation.reading, Chain.stage_read]
    dsimp only
    rw [read, h.chain, Chain.dropStatement_read, update]
    dsimp only
    rw [takeCursor, Chain.takeSlot_read]
    dsimp only
    rw [h.sources]
  | source :: later, s, r, statement, printing, payload, h => by
    have arrives := drain_steps reply render (.start source) r payload ⟨statement, printing, .inr ⟨source, rfl, h⟩⟩
    have hb : stepBound (source :: later) = 16 * ((Cursor.start source).pending + 1) + stepBound later := by
      simp only [stepBound, List.foldr_cons]
      omega
    rw [Dialogue.run]
    rcases hd : Dialogue.drain reply render globals (.start source) r with ⟨r', _ | _⟩ <;> rw [hd] at arrives
    · obtain ⟨n, hn, s', statement', slot', printing', steps, h'⟩ := arrives
      exact ⟨n, by omega, s', statement', slot', printing', later, steps, h'⟩
    · obtain ⟨n, hn, s₁, statement', printing', payload', steps, h₁⟩ := arrives
      obtain ⟨m, hm, s₂, statement'', slot'', printing'', later', steps', h₂⟩ := run_steps later payload' h₁
      exact ⟨n + m, by omega, s₂, statement'', slot'', printing'', later', steps.trans steps', h₂⟩

end Tracking

end Session

/-- **A session is the plain loop.**  Whatever its sources hold, deliver or break off with, and whatever the evaluator
answers, a session comes to its end, has handed the evaluator the expressions of the loop in their order, each in the
globals, and has written what the loop writes. -/
theorem session_runs_plain_loop {σ : Type} (reply : Replier σ) (render : Value → String) (globals : FrameId)
    (sources : List Source) (evaluation : σ) :
    let plain := Dialogue.run reply render globals sources { evaluation }
    let session := (Session.start sources (evaluation, []) globals .healthy .healthy).run (reply.tools render)
    session.2 = .halted ∧ session.1.transcript = plain.written ∧
    session.1.evaluation = (plain.evaluation, plain.handed) := by
  intro plain session
  let s₀ := Session.start sources (evaluation, ([] : List (Datum × FrameId))) globals .healthy .healthy
  have h₀ : s₀.Tracks globals none .none false sources { evaluation } :=
    { chain := rfl, sources := rfl, globals := rfl, evaluation := rfl, stdout := Channel.healthy_healthy,
      stderr := Channel.healthy_healthy, readStep := rfl, errorStep := rfl, untraced := rfl, written := rfl }
  obtain ⟨n, hn, s, statement, slot, printing, later, steps, h⟩ := Session.run_steps reply render sources .none h₀
  have hrun : session = (s, .halted) := by
    rw [show session = s₀.run (reply.tools render) from rfl, Session.run, Session.initial, h₀.chain, h₀.readStep,
      Chain.invoke_read]
    dsimp only
    rw [h₀.sources, ← Nat.add_sub_of_le hn, steps]
    cases Session.stepBound sources - n <;> rfl
  rw [hrun]
  exact ⟨rfl, by rw [Session.transcript, h.written, List.reverse_reverse], h.evaluation⟩

end LispSession
