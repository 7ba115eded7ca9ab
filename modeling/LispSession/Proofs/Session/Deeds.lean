import LispSession.Proofs.Session.Stance
/-!
# What a session does besides writing

It reads its sources, hands data to its evaluator, and comes to an end for a reason; these are its deeds.  They depend
on where it stands and on nothing else, so they are the same for all sessions that stand at the same place, whatever
becomes of their output.

From one read to the next a session takes four steps at most, and every read leaves less to be read.  So a session over
given sources has one course to its end (`Stance.course`).
-/
namespace LispSession

/-- Why a session ends: the sources are used up, or a console is interrupted. -/
inductive Ending where
  | drained
  | interrupted

/-- Something a session does.  The cursor before a read shows the source and what it has still to deliver, and the
cursor after it what is left of that. -/
inductive Deed where
  | prompt (shown : Writing)
  | read (before after : Cursor) (result : Except ReadFailure (Option Datum))
  | evaluate (d : Datum) (environment : FrameId)
  | finish (why : Ending)

/-- Whether a read ends the session. -/
def Deed.ending : Except ReadFailure (Option Datum) → List Deed
  | .error (.input .interrupted) => [.finish .interrupted]
  | _ => []

namespace Session

variable {σ : Type}

/-- What a step shows on the standard output. -/
def shownBy (tools : Tools σ) (s : Session σ) (i : Invocation) : List Writing :=
  let written := (s.step tools i).1.written
  (written.take (written.length - s.written.length)).reverse.filter (·.stream = .out)

/-- The deeds of the step that is about to be taken.  All that a read shows on the standard output are prompts. -/
def deeds (tools : Tools σ) (s : Session σ) (i : Invocation) : List Deed :=
  match s.chain.stage i.id, i.payload with
  | .ok .read, _ =>
    (s.shownBy tools i).map .prompt ++
      match s.takeCursor i.id with
      | .ok (some c, _) => .read c.ready c.ready.read.1 c.ready.read.2 :: Deed.ending c.ready.read.2
      | .ok (none, _) => [.finish .drained]
      | .error _ => []
  | .ok .eval, .eval d environment => [.evaluate d environment]
  | _, _ => []

/-- The deeds of at most so many steps. -/
def deedsFor (tools : Tools σ) : Nat → Session σ → Status → List Deed
  | fuel + 1, s, .running i => s.deeds tools i ++ deedsFor tools fuel (s.step tools i).1 (s.step tools i).2
  | _, _, _ => []

/-- All deeds of a session. -/
def allDeeds (tools : Tools σ) (s : Session σ) : List Deed := s.deedsFor tools (stepBound s.sources) s.initial

end Session

namespace Stance

variable {σ : Type}

/-- The prompts that the next read shows. -/
def prompts (a : Stance σ) : List Writing := a.take?.elim [] fun (c, _) => c.ready.read.1.echoed

/-- The deeds of a task. -/
def deeds (globals : FrameId) (a : Stance σ) : Task → List Deed
  | .read _ =>
    a.prompts.map .prompt ++
      match a.take? with
      | some (c, _) => .read c.ready c.ready.read.1 c.ready.read.2 :: Deed.ending c.ready.read.2
      | none => [.finish .drained]
  | .evaluate d _ => [.evaluate d globals]
  | .print _ | .report _ => []

end Stance

theorem Cursor.stream_of_echoed {c : Cursor} {w : Writing} (h : w ∈ c.echoed) : w.stream = .out := by
  unfold echoed at h
  split at h
  · cases h
  · obtain ⟨p, -, rfl⟩ := List.mem_map.1 h
    rfl

theorem Stance.stream_of_prompts {σ : Type} {a : Stance σ} {w : Writing} (h : w ∈ a.prompts) : w.stream = .out := by
  unfold prompts at h
  cases ht : a.take? with
  | none => rw [ht] at h; cases h
  | some taken => rw [ht] at h; exact Cursor.stream_of_echoed h

namespace Session

variable {σ : Type} {s : Session σ} {globals : FrameId} {a : Stance σ}

/-! ## Prompts -/

theorem written_update (change : Except StepFailure Chain) {next : Session σ → Session σ × Outcome}
    (hnext : ∀ s, (next s).1.written = s.written) : (s.update change next).1.written = s.written := by
  unfold update
  split
  · exact hnext _
  · rfl

theorem written_keepCursor (id : StepId) (c : Cursor) {next : Session σ → Session σ × Outcome}
    (hnext : ∀ s, (next s).1.written = s.written) : (s.keepCursor id c next).1.written = s.written := by
  unfold keepCursor
  split
  · exact hnext _
  · exact written_update _ hnext

/-- What to do after a read is decided without writing. -/
theorem written_afterRead (i : Invocation) (c : Cursor) (result : Except ReadFailure (Option Datum)) :
    (s.afterRead i c result).1.written = s.written := by
  unfold afterRead
  split
  · exact written_keepCursor _ _ fun _ => rfl
  · rfl
  · rfl
  · rfl
  · exact written_keepCursor _ _ fun _ => rfl
  · dsimp only
    split
    · rfl
    · exact written_update _ fun _ => written_update _ fun _ => rfl

theorem written_showTrace {s s' : Session σ} {i : Invocation} (h : s.showTrace i = .ok s') :
    ∃ traced, s'.written = traced ++ s.written ∧ ∀ w ∈ traced, w.stream = .err := by
  unfold showTrace at h
  split at h
  · cases h
    exact ⟨[], rfl, nofun⟩
  · cases ht : s.chain.trace i s.traceDepth with
    | error why => rw [ht] at h; cases h
    | ok text =>
      rw [ht] at h
      cases h
      exact ⟨[_], rfl, by simp⟩

theorem step_fst {tools : Tools σ} {s s' : Session σ} {i : Invocation} (h : s.showTrace i = .ok s') :
    (s.step tools i).1 = (s'.perform tools i).1 := by
  rw [step, h]
  dsimp only
  rcases s'.perform tools i with ⟨s₁, (_ | j) | why | _⟩
  · rfl
  · rfl
  · dsimp only
    split <;> rfl
  · rfl

theorem Stands.written_read (h : s.Stands globals a) (tools : Tools σ) (payload : Payload) :
    (s.perform tools (.reading payload)).1.written = a.prompts.reverse ++ s.written := by
  rw [Session.perform, h.chain, Invocation.reading, Chain.stage_read]
  dsimp only
  rw [Session.read, h.chain, Chain.dropStatement_read, update]
  dsimp only
  unfold Stance.prompts
  cases ht : a.take? with
  | none =>
    obtain ⟨s₁, hs, -, hw⟩ := h.takeCursor_none ht none
    rw [hs]
    exact hw
  | some taken =>
    obtain ⟨s₁, hs, -, hw⟩ := h.takeCursor_some ht none
    rw [hs]
    dsimp only
    rw [← Cursor.ready, written_afterRead, hw]
    rfl

/-- What a step shows is what it writes to the standard output, whatever else is traced. -/
theorem shownBy_eq {tools : Tools σ} {s s' : Session σ} {i : Invocation} {new : List Writing}
    (hs : s.showTrace i = .ok s') (hw : (s'.perform tools i).1.written = new ++ s'.written) :
    s.shownBy tools i = new.reverse.filter (·.stream = .out) := by
  obtain ⟨traced, htraced, herr⟩ := written_showTrace hs
  have unseen : traced.filter (·.stream = .out) = [] := List.filter_eq_nil_iff.2 fun w hmem => by simp [herr w hmem]
  have total : (s.step tools i).1.written = (new ++ traced) ++ s.written := by
    rw [step_fst hs, List.append_assoc, ← htraced]
    exact hw
  rw [shownBy, total, List.length_append, Nat.add_sub_cancel, List.take_left, List.reverse_append, List.filter_append,
    List.filter_reverse, unseen]
  rfl

/-- **All that a read shows on the standard output are prompts**, whatever else is traced. -/
theorem Stands.shownBy_read (h : s.Stands globals a) (tools : Tools σ) (payload : Payload) :
    s.shownBy tools (.reading payload) = a.prompts := by
  obtain ⟨s₁, hs, h₁⟩ := h.showTrace (t := .read payload) trivial
  rw [Task.invocation] at hs
  rw [shownBy_eq hs (h₁.written_read tools payload), List.reverse_reverse]
  exact List.filter_eq_self.2 fun w hmem => by simp [Stance.stream_of_prompts hmem]

theorem Stands.deeds (h : s.Stands globals a) (tools : Tools σ) {t : Task} (ht : a.Admits t) :
    s.deeds tools (t.invocation globals) = a.deeds globals t := by
  unfold Session.deeds
  rw [h.chain]
  cases t with
  | read payload =>
    have same : s = { s with chain := .wired a.statement a.slot a.printing } := by rw [← h.chain]
    rw [Task.invocation, h.shownBy_read, Invocation.reading, Chain.stage_read]
    dsimp only [Stance.deeds]
    cases htake : a.take? with
    | none =>
      obtain ⟨s', hs, -⟩ := h.takeCursor_none htake a.statement
      rw [← same] at hs
      rw [hs]
    | some taken =>
      obtain ⟨s', hs, -⟩ := h.takeCursor_some htake a.statement
      rw [← same] at hs
      rw [hs]
  | evaluate d shown =>
    rw [Task.invocation, Invocation.evaluating, Chain.stage_eval]
    rfl
  | print v =>
    rw [Task.invocation, Invocation.printing, show a.printing = true from ht, Chain.stage_print]
    rfl
  | report r =>
    rw [Task.invocation, Invocation.reporting, Chain.stage_handleError]
    rfl

/-! ## Several steps -/

/-- So many steps lead from one status to another, with these deeds on the way. -/
def Leads (tools : Tools σ) (n : Nat) (s : Session σ) (status : Status) (deeds : List Deed) (s' : Session σ)
    (status' : Status) : Prop :=
  ∀ fuel, runFor tools (n + fuel) s status = runFor tools fuel s' status' ∧
    deedsFor tools (n + fuel) s status = deeds ++ deedsFor tools fuel s' status'

theorem Leads.refl (tools : Tools σ) (s : Session σ) (status : Status) : Leads tools 0 s status [] s status :=
  fun fuel => by
  rw [Nat.zero_add]
  exact ⟨rfl, rfl⟩

theorem Leads.step {tools : Tools σ} {n : Nat} {s s₁ s₂ : Session σ} {i : Invocation} {status₁ status₂ : Status}
    {deeds : List Deed} (first : s.step tools i = (s₁, status₁)) (later : Leads tools n s₁ status₁ deeds s₂ status₂) :
    Leads tools (n + 1) s (.running i) (s.deeds tools i ++ deeds) s₂ status₂ := fun fuel => by
  obtain ⟨hrun, hdeeds⟩ := later fuel
  rw [Nat.add_right_comm, runFor, deedsFor, first]
  exact ⟨hrun, by rw [hdeeds, List.append_assoc]⟩

theorem Leads.trans {tools : Tools σ} {n m : Nat} {s s' s'' : Session σ} {status status' status'' : Status}
    {deeds deeds' : List Deed} (h : Leads tools n s status deeds s' status')
    (h' : Leads tools m s' status' deeds' s'' status'') :
    Leads tools (n + m) s status (deeds ++ deeds') s'' status'' := fun fuel => by
  rw [Nat.add_assoc, (h _).1, (h _).2, (h' _).1, (h' _).2, List.append_assoc]
  exact ⟨rfl, rfl⟩

end Session

/-! ## What is left to read -/

namespace Stance

variable {σ : Type}

/-- A bound on the reads to come: what the sources have still to deliver, and one for each of them. -/
def weight (a : Stance σ) : Nat :=
  a.cursor.elim 0 (·.pending + 1) + a.sources.foldr (fun source later => (Cursor.start source).pending + 1 + later) 0

theorem weight_of_take {a : Stance σ} {c : Cursor} {later : List Source} (h : a.take? = some (c, later)) :
    a.weight = (a.reading later).weight + c.pending + 1 := by
  unfold take? at h
  split at h
  · next hc =>
    cases h
    simp only [weight, reading, hc, Option.elim]
    omega
  · next hc hs =>
    cases h
    simp only [weight, reading, hc, hs, Option.elim, List.foldr_cons]
    omega
  · cases h

theorem weight_keep {a : Stance σ} (hc : a.cursor = none) (c : Cursor) :
    (a.keep c).weight ≤ a.weight + c.pending + 1 := by
  unfold keep weight
  rw [hc]
  split
  · simp only [Option.elim]; omega
  · simp only [Option.elim]; omega

/-- **Every read but the last leaves less to read.** -/
theorem weight_next_read {reply : Replier σ} {globals : FrameId} {a : Stance σ} {broken : Option StepFailure}
    {payload : Payload} {t : Task} (h : (a.next reply globals broken (.read payload)).2 = some t) :
    (a.next reply globals broken (.read payload)).1.weight < a.weight := by
  cases ht : a.take? with
  | none =>
    rw [next_read_none ht] at h
    cases h
  | some taken =>
    obtain ⟨c, later⟩ := taken
    rcases hread : c.ready.read with ⟨c', result⟩
    rw [next_read_some ht hread] at h ⊢
    have total := weight_of_take ht
    have room := weight_keep (a := a.reading later) rfl c'.dropEcho
    rw [Cursor.pending_dropEcho] at room
    have consumed (hresult : (∃ d, result = .ok (some d)) ∨ ∃ error excerpt, result = .error (.text error excerpt)) :
        c'.pending < c.pending := by
      have less := Cursor.read_consumes hread hresult
      rwa [c.pending_ready] at less
    match result with
    | .ok none =>
      have less := Cursor.read_nothing hread
      rw [c.pending_ready] at less
      obtain exhausted | less := less
      · have dropped : (a.reading later).keep c'.dropEcho = a.reading later := by
          rw [keep, if_pos (show c'.dropEcho.isExhausted = true from exhausted)]
          rfl
        exact (by rw [dropped]; omega : ((a.reading later).keep c'.dropEcho).weight < a.weight)
      · exact (by omega : ((a.reading later).keep c'.dropEcho).weight < a.weight)
    | .ok (some d) =>
      have less := consumed (.inl ⟨d, rfl⟩)
      have kept : ((a.reading later).afterRead c'.dropEcho (.ok (some d))).1.weight =
          (a.reading later).weight + c'.pending + 1 := by
        simp only [afterRead, weight, reading, Option.elim, Cursor.pending_dropEcho]
        omega
      omega
    | .error (.text error excerpt) =>
      have less := consumed (.inr ⟨error, excerpt, rfl⟩)
      exact (by omega : ((a.reading later).keep c'.dropEcho).weight < a.weight)
    | .error (.input .interrupted) => cases h
    | .error (.input (.collapsed _)) | .error (.input (.unreadable _ _)) | .error (.input (.console _)) =>
      exact (by omega : (a.reading later).weight < a.weight)

end Stance

/-! ## The course of a session -/

namespace Session

variable {σ : Type} (reply : Replier σ) (globals : FrameId)

/-- From this task a session is on its way to the next read, with these deeds, whatever becomes of its output. -/
def Settles (bound : Nat) (a : Stance σ) (t : Task) (deeds : List Deed) (b : Stance σ) : Prop :=
  ∀ (printer : Printer) (s : Session σ), s.Stands globals a →
    ∃ n ≤ bound, ∃ s' payload, Leads ⟨reply.evaluator, printer⟩ n s (.running (t.invocation globals)) deeds s'
      (.running (.reading payload)) ∧ s'.Stands globals b

variable {reply globals} {a b : Stance σ}

theorem settles_read (a : Stance σ) (payload : Payload) : Settles reply globals 0 a (.read payload) [] a :=
  fun _ s h => ⟨0, Nat.le_refl 0, s, payload, Leads.refl _ _ _, h⟩

/-- A step that can lead to several tasks is settled if all of them are. -/
theorem Settles.step {bound : Nat} {t : Task} {deeds : List Deed} {moved : Stance σ} (ht : a.Admits t)
    (hmoved : ∀ broken, (a.next reply globals broken t).1 = moved)
    (hnext : ∀ broken,
      ∃ t', (a.next reply globals broken t).2 = some t' ∧ Settles reply globals bound moved t' deeds b) :
    Settles reply globals (bound + 1) a t (a.deeds globals t ++ deeds) b := by
  intro printer s h
  obtain ⟨s₁, broken, first, h₁⟩ := h.step reply printer ht
  obtain ⟨t', htask, settled⟩ := hnext broken
  rw [htask] at first
  rw [hmoved] at h₁
  obtain ⟨n, hn, s₂, payload, later, h₂⟩ := settled printer s₁ h₁
  rw [← h.deeds ⟨reply.evaluator, printer⟩ ht]
  exact ⟨n + 1, by omega, s₂, payload, .step first later, h₂⟩

theorem Settles.mono {bound bound' : Nat} {t : Task} {deeds : List Deed} (h : Settles reply globals bound a t deeds b)
    (hb : bound ≤ bound') : Settles reply globals bound' a t deeds b := fun printer s hs => by
  obtain ⟨n, hn, later⟩ := h printer s hs
  exact ⟨n, by omega, later⟩

theorem settles_report (a : Stance σ) (r : Report) : Settles reply globals 1 a (.report r) [] a :=
  Settles.step trivial (fun _ => rfl) fun _ => ⟨_, rfl, settles_read a _⟩

theorem settles_print (v : Value) (ht : a.Admits (.print v)) : Settles reply globals 2 a (.print v) [] a := by
  refine Settles.step ht (fun _ => rfl) fun broken => ⟨_, rfl, ?_⟩
  cases broken with
  | none => exact (settles_read a _).mono (by omega)
  | some why => exact settles_report a _

theorem settles_evaluate (d : Datum) (shown : Bool) (ht : a.Admits (.evaluate d shown)) :
    Settles reply globals 3 a (.evaluate d shown) [.evaluate d globals]
      { a with evaluation := (reply a.evaluation d globals).1 } := by
  rw [← List.append_nil [Deed.evaluate d globals]]
  refine Settles.step ht (fun _ => rfl) fun _ => ⟨_, rfl, ?_⟩
  cases (reply a.evaluation d globals).2 with
  | value v =>
    cases shown with
    | true => exact settles_print v (ht rfl)
    | false => exact (settles_read _ _).mono (by omega)
  | raised | fault | panic => exact (settles_report _ _).mono (by omega)

/-- **Whatever is to be done, the next read is not far**, and it finds the same cursor and the same sources. -/
theorem settles (reply : Replier σ) (globals : FrameId) {t : Task} (ht : a.Admits t) :
    ∃ deeds b, Settles reply globals 3 a t deeds b ∧ b.weight = a.weight := by
  cases t with
  | read payload => exact ⟨_, _, (settles_read a payload).mono (by omega), rfl⟩
  | evaluate d shown => exact ⟨_, _, settles_evaluate d shown ht, rfl⟩
  | print v => exact ⟨_, _, (settles_print v ht).mono (by omega), rfl⟩
  | report r => exact ⟨_, _, (settles_report a r).mono (by omega), rfl⟩

/-- The last read names the reason for the end. -/
theorem deeds_of_end {payload : Payload} (h : (a.next reply globals none (.read payload)).2 = none) :
    ∃ deeds why, a.deeds globals (.read payload) = deeds ++ [.finish why] := by
  cases ht : a.take? with
  | none => exact ⟨a.prompts.map .prompt, .drained, by rw [Stance.deeds, ht]⟩
  | some taken =>
    rcases hread : taken.1.ready.read with ⟨c, result⟩
    rw [Stance.next_read_some ht hread] at h
    match result with
    | .error (.input .interrupted) =>
      refine ⟨a.prompts.map .prompt ++ [.read taken.1.ready c (.error (.input .interrupted))], .interrupted, ?_⟩
      rw [Stance.deeds, ht]
      dsimp only
      rw [hread, List.append_assoc]
      rfl
    | .ok none | .ok (some _) | .error (.text _ _) | .error (.input (.collapsed _)) | .error (.input (.unreadable _ _))
    | .error (.input (.console _)) => cases h

/-- What a read leads to depends neither on its payload nor on any output. -/
theorem Stands.step_read {s : Session σ} (h : s.Stands globals a) (reply : Replier σ) (printer : Printer)
    (payload : Payload) :
    ∃ s', s.step ⟨reply.evaluator, printer⟩ (.reading payload) =
        (s', statusOf globals (a.next reply globals none (.read .none)).2) ∧
      s'.Stands globals (a.next reply globals none (.read .none)).1 ∧
      s.deeds ⟨reply.evaluator, printer⟩ (.reading payload) = a.deeds globals (.read .none) := by
  obtain ⟨s', broken, first, h'⟩ := h.step reply printer (t := .read payload) trivial
  exact ⟨s', first, h', h.deeds _ (t := .read payload) trivial⟩

/-- A session has come to its end after so many steps at most, with these deeds, whatever becomes of its output. -/
def Concludes (reply : Replier σ) (globals : FrameId) (a : Stance σ) (deeds : List Deed) (b : Stance σ) : Prop :=
  ∀ (printer : Printer) (s : Session σ) (payload : Payload), s.Stands globals a →
    ∃ n ≤ 4 * (a.weight + 1), ∃ s',
      Leads ⟨reply.evaluator, printer⟩ n s (.running (.reading payload)) deeds s' .halted ∧ s'.Stands globals b

/-- **A session has one course to its end from where it stands.**  The recursion is on what is left to read. -/
theorem concludes (reply : Replier σ) (globals : FrameId) (a : Stance σ) :
    ∃ deeds why b, Concludes reply globals a (deeds ++ [.finish why]) b := by
  rcases hnext : a.next reply globals none (.read .none) with ⟨moved, _ | t⟩
  · obtain ⟨deeds, why, hdeeds⟩ := deeds_of_end (congrArg Prod.snd hnext)
    refine ⟨deeds, why, moved, fun printer s payload h => ?_⟩
    obtain ⟨s₁, first, h₁, done⟩ := h.step_read reply printer payload
    rw [hnext] at first h₁
    rw [← hdeeds, ← done, ← List.append_nil (s.deeds _ _)]
    exact ⟨1, by omega, s₁, .step first (Leads.refl _ _ _), h₁⟩
  · have less : moved.weight < a.weight := by
      have := Stance.weight_next_read (congrArg Prod.snd hnext)
      rwa [hnext] at this
    have admitted : moved.Admits t := by
      have := Stance.Admits.next (t := .read .none) trivial none t (congrArg Prod.snd hnext)
      rwa [hnext] at this
    obtain ⟨deeds, b, settled, hb⟩ := settles reply globals admitted
    obtain ⟨deeds', why, final, course⟩ := concludes reply globals b
    refine ⟨a.deeds globals (.read .none) ++ (deeds ++ deeds'), why, final, fun printer s payload h => ?_⟩
    rw [List.append_assoc, List.append_assoc]
    obtain ⟨s₁, first, h₁, done⟩ := h.step_read reply printer payload
    rw [hnext] at first h₁
    obtain ⟨n, hn, s₂, payload', way, h₂⟩ := settled printer s₁ h₁
    obtain ⟨m, hm, s₃, rest, h₃⟩ := course printer s₂ payload' h₂
    rw [← done]
    exact ⟨n + m + 1, by omega, s₃, .step first (way.trans rest), h₃⟩
termination_by a.weight
decreasing_by omega

/-! ## Whole sessions -/

/-- How a session's output behaves: its channels, how much of it is traced, and whether that is coloured. -/
structure Outlet where
  stdout : Channel
  stderr : Channel
  traceDepth : Nat := 0
  colours : Bool := true

/-- A new session with such an output. -/
def startOn (outlet : Outlet) (sources : List Source) (evaluation : σ) (globals : FrameId) : Session σ :=
  { start sources evaluation globals outlet.stdout outlet.stderr with
    traceDepth := outlet.traceDepth, colours := outlet.colours }

theorem startOn_stands (outlet : Outlet) (sources : List Source) (evaluation : σ) (globals : FrameId) :
    (startOn outlet sources evaluation globals).Stands globals { evaluation, sources } where
  chain := rfl
  sources := rfl
  globals := rfl
  evaluation := rfl
  readStep := rfl
  errorStep := rfl

theorem Stands.initial {s : Session σ} (h : s.Stands globals a) : s.initial = .running (.reading .none) := by
  rw [Session.initial, h.chain, h.readStep, Chain.invoke_read]

theorem stepBound_eq (evaluation : σ) (sources : List Source) :
    stepBound sources = 16 * (({ evaluation, sources } : Stance σ).weight + 2) := by
  unfold stepBound Stance.weight
  induction sources with
  | nil => rfl
  | cons source later ih => simp only [List.foldr_cons, Option.elim] at ih ⊢; omega

/-- **What a session does is settled by its sources and its evaluator.** -/
theorem run_settled (reply : Replier σ) (sources : List Source) (evaluation : σ) (globals : FrameId) :
    ∃ deeds why b, ∀ (printer : Printer) (outlet : Outlet),
      let s := startOn outlet sources evaluation globals
      s.allDeeds ⟨reply.evaluator, printer⟩ = deeds ++ [.finish why] ∧ (s.run ⟨reply.evaluator, printer⟩).2 = .halted ∧
        (s.run ⟨reply.evaluator, printer⟩).1.Stands globals b := by
  obtain ⟨deeds, why, b, course⟩ := concludes reply globals { evaluation, sources }
  refine ⟨deeds, why, b, fun printer outlet => ?_⟩
  have h := startOn_stands outlet sources evaluation globals
  obtain ⟨n, hn, s', leads, h'⟩ := course printer _ .none h
  have enough : n ≤ stepBound sources := by rw [stepBound_eq evaluation]; omega
  obtain ⟨hrun, hdeeds⟩ := leads (stepBound sources - n)
  rw [Nat.add_sub_of_le enough] at hrun hdeeds
  have ended (fuel : Nat) : runFor ⟨reply.evaluator, printer⟩ fuel s' .halted = (s', .halted) ∧
      deedsFor ⟨reply.evaluator, printer⟩ fuel s' .halted = [] := by
    cases fuel <;> exact ⟨rfl, rfl⟩
  rw [(ended _).1] at hrun
  rw [(ended _).2, List.append_nil] at hdeeds
  dsimp only
  rw [allDeeds, run, h.initial, h.sources, hrun]
  exact ⟨hdeeds, rfl, h'⟩

end Session

/-- **Output never changes what a session does.**  Take two sessions over the same sources, with the same evaluator and
the same printer, which may panic as it likes.  Their channels may take, cut or refuse any write and fail any flush, and
they may be traced to any depth.  Both come to their end, they have handed their evaluators the same expressions in the
same environments and left them in the same state, and they have done the same things in the same order: shown the same
prompts, read the same lines from the same sources with the same results, and ended for the same reason. -/
theorem output_never_changes_evaluation {σ : Type} (reply : Replier σ) (printer : Printer) (sources : List Source)
    (evaluation : σ) (globals : FrameId) (one two : Session.Outlet) :
    let tools : Session.Tools _ := ⟨reply.recording, printer⟩
    let first := Session.startOn one sources (evaluation, []) globals
    let second := Session.startOn two sources (evaluation, []) globals
    (first.run tools).2 = .halted ∧ (second.run tools).2 = .halted ∧
    (first.run tools).1.evaluation = (second.run tools).1.evaluation ∧
    ∃ deeds why, first.allDeeds tools = deeds ++ [.finish why] ∧ second.allDeeds tools = deeds ++ [.finish why] := by
  obtain ⟨deeds, why, b, settled⟩ := Session.run_settled reply.logging sources (evaluation, []) globals
  obtain ⟨deeds₁, halted₁, stands₁⟩ := settled printer one
  obtain ⟨deeds₂, halted₂, stands₂⟩ := settled printer two
  exact ⟨halted₁, halted₂, stands₁.evaluation.trans stands₂.evaluation.symm, deeds, why, deeds₁, deeds₂⟩

end LispSession
