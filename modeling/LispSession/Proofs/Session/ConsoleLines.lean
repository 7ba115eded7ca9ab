import LispSession.Proofs.Printed.OneLine
import LispSession.Proofs.Session.Standard
/-!
# One line for each result

What a session shows on its standard output, prompts apart, are the values of the expressions that its consoles bring.
What a step prints has been the result of the step before, and a step has a result to be printed only if it evaluates an
expression from a console (`KeepsToWords.lines_step`).  So the lines that have been shown, and the one that is about to
be, are the results so far, in order.

Each of them is one line: the names in what is read are words, evaluation keeps to words, and so the text of a value
holds no line break (`console_results_are_single_lines`).
-/
namespace LispSession

/-- The value that a verdict hands on. -/
def Verdict.value? : Verdict → Option Value
  | .resume v => some v
  | _ => none

/-- The line that shows a value. -/
def Value.line (v : Value) : String := v.text ++ "\n"

/-- The value that a task is to print. -/
def Task.printed : Task → List Value
  | .print v => [v]
  | _ => []

/-- The value of an expression from a console, if the task is to evaluate one and it has a value. -/
def Stance.results {σ : Type} (e : Evaluator σ) (globals : FrameId) (a : Stance σ) : Task → List Value
  | .evaluate d _ => if a.cursor.any (·.isConsole) then (e.eval a.evaluation d globals).2.value?.toList else []
  | _ => []

namespace Session

variable {σ : Type}

/-! ## Lines and results -/

/-- Whether the source that is read from is a console. -/
def atConsole (s : Session σ) : Bool :=
  match s.chain.slot s.readStep with
  | .ok (.cursor c) => c.isConsole
  | _ => false

/-- The value of an expression from a console, if the step that is about to be taken evaluates one and that has a
value. -/
def results (tools : Tools σ) (s : Session σ) (i : Invocation) : List Value :=
  match s.chain.stage i.id, i.payload with
  | .ok .eval, .eval d environment =>
    if s.atConsole then (tools.evaluator.eval s.evaluation d environment).2.value?.toList else []
  | _, _ => []

/-- What the step that is about to be taken writes to the standard output.  All that a read writes there are prompts,
which are left out. -/
def lines (tools : Tools σ) (s : Session σ) (i : Invocation) : List String :=
  match s.chain.stage i.id with
  | .ok .read => []
  | _ => (s.shownBy tools i).map (·.text)

/-- The value that is about to be printed. -/
def toPrint (s : Session σ) : Status → List Value
  | .running i =>
    match s.chain.stage i.id, i.payload with
    | .ok .print, .result v => [v]
    | _, _ => []
  | _ => []

/-- All that so many steps at most bring. -/
def gather {α : Type} (tools : Tools σ) (what : Session σ → Invocation → List α) : Nat → Session σ → Status → List α
  | fuel + 1, s, .running i => what s i ++ gather tools what fuel (s.step tools i).1 (s.step tools i).2
  | _, _, _ => []

/-! ## What tasks write -/

section Written

variable {s : Session σ} {globals : FrameId} {a : Stance σ}

theorem written_writeErrLines (lines : List String) (s : Session σ) :
    ∃ new, (s.writeErrLines lines).1.written = new ++ s.written ∧ ∀ w ∈ new, w.stream = .err := by
  induction lines generalizing s with
  | nil => exact ⟨[], rfl, nofun⟩
  | cons line lines ih =>
    have first : ∃ w, (s.writeErr line).1.written = w :: s.written ∧ w.stream = .err := ⟨_, rfl, rfl⟩
    obtain ⟨w, hw, herr⟩ := first
    rw [writeErrLines]
    split
    · next hs =>
      rw [hs] at hw
      exact ⟨[w], hw, List.forall_mem_singleton.2 herr⟩
    · next hs =>
      rw [hs] at hw
      obtain ⟨new, hnew, hall⟩ := ih _
      exact ⟨new ++ [w], by rw [hnew, hw]; simp, List.forall_mem_append.2 ⟨hall, List.forall_mem_singleton.2 herr⟩⟩

theorem written_resumeAfterReport (s : Session σ) (i : Invocation) : (s.resumeAfterReport i).1.written = s.written := by
  unfold resumeAfterReport
  exact written_update _ fun _ => rfl

/-- A report goes to the error output. -/
theorem written_handleError (tools : Tools σ) (s : Session σ) (i : Invocation) :
    ∃ new, (s.handleError tools i).1.written = new ++ s.written ∧ ∀ w ∈ new, w.stream = .err := by
  unfold handleError
  dsimp only
  split
  · exact ⟨[], rfl, nofun⟩
  · split
    · exact ⟨[], rfl, nofun⟩
    · next statement _ =>
      generalize ("error: " ++ _) :: _ ++ _ = report
      obtain ⟨new, hnew, hall⟩ := s.written_writeErrLines report
      split
      · next hw =>
        rw [hw] at hnew
        exact ⟨new, hnew, hall⟩
      · next s₁ hw =>
        rw [hw] at hnew
        split
        · exact ⟨new, hnew, hall⟩
        · have flushed : s₁.flushErr.1.written = s₁.written := rfl
          split
          · next hf =>
            rw [hf] at flushed
            exact ⟨new, flushed.trans hnew, hall⟩
          · next hf =>
            rw [hf] at flushed
            exact ⟨new, (written_resumeAfterReport _ i).trans (flushed.trans hnew), hall⟩

/-- A value is printed by writing its line. -/
theorem written_print (e : Evaluator σ) (s : Session σ) {i : Invocation} {v : Value} (hi : i.payload = .result v) :
    ∃ taken, (s.print ⟨e, .standard⟩ i).1.written = ⟨.out, v.line, taken⟩ :: s.written := by
  have written : ∃ taken, (s.writeOut v.text).1.written = ⟨.out, v.line, taken⟩ :: s.written := ⟨_, rfl⟩
  obtain ⟨taken, hwritten⟩ := written
  refine ⟨taken, ?_⟩
  unfold print
  rw [hi]
  dsimp only [Printer.standard]
  split
  · next hw =>
    rw [hw] at hwritten
    exact hwritten
  · next s₁ hw =>
    rw [hw] at hwritten
    have flushed : s₁.flushOut.1.written = s₁.written := rfl
    split
    · next hf =>
      rw [hf] at flushed
      exact flushed.trans hwritten
    · next hf =>
      rw [hf] at flushed
      exact flushed.trans hwritten

theorem written_eval (tools : Tools σ) (s : Session σ) (i : Invocation) : (s.eval tools i).1.written = s.written := by
  unfold eval
  split <;> rfl

end Written

/-! ## Steps -/

section Stands

variable {s : Session σ} {globals : FrameId} {a : Stance σ} {t : Task}

theorem Stands.toPrint_running (h : s.Stands globals a) (ht : a.Admits t) :
    s.toPrint (.running (t.invocation globals)) = t.printed := by
  unfold toPrint
  dsimp only
  rw [h.chain]
  cases t with
  | read payload => rw [Task.invocation, Invocation.reading, Chain.stage_read]; rfl
  | evaluate d shown => rw [Task.invocation, Invocation.evaluating, Chain.stage_eval]; rfl
  | print v => rw [Task.invocation, Invocation.printing, show a.printing = true from ht, Chain.stage_print]; rfl
  | report r => rw [Task.invocation, Invocation.reporting, Chain.stage_handleError]; rfl

theorem Stands.toPrint_statusOf (h : s.Stands globals a) {next : Option Task} (hnext : ∀ t ∈ next, a.Admits t) :
    s.toPrint (statusOf globals next) = next.elim [] Task.printed := by
  cases next with
  | none => rfl
  | some t => exact h.toPrint_running (hnext t rfl)

/-- **Nothing but printing shows up on the standard output**, prompts apart. -/
theorem Stands.lines (h : s.Stands globals a) (e : Evaluator σ) (ht : a.Admits t) :
    s.lines ⟨e, .standard⟩ (t.invocation globals) = t.printed.map Value.line := by
  obtain ⟨s₁, hs, h₁⟩ := h.showTrace ht
  unfold Session.lines
  rw [h.chain]
  cases t with
  | read payload => rw [Task.invocation, Invocation.reading, Chain.stage_read]; rfl
  | evaluate d shown =>
    have written : (s₁.perform ⟨e, .standard⟩ ((Task.evaluate d shown).invocation globals)).1.written =
        [] ++ s₁.written := by
      rw [Session.perform, h₁.chain, Task.invocation, Invocation.evaluating, Chain.stage_eval]
      exact written_eval _ s₁ _
    rw [shownBy_eq hs written, Task.invocation, Invocation.evaluating, Chain.stage_eval]
    rfl
  | print v =>
    have printing : a.printing = true := ht
    have written : ∃ taken, (s₁.perform ⟨e, .standard⟩ ((Task.print v).invocation globals)).1.written =
        [⟨.out, v.line, taken⟩] ++ s₁.written := by
      rw [Session.perform, h₁.chain, Task.invocation, Invocation.printing, printing, Chain.stage_print]
      exact s₁.written_print e rfl
    obtain ⟨taken, hw⟩ := written
    rw [shownBy_eq hs hw, Task.invocation, Invocation.printing, printing, Chain.stage_print]
    rfl
  | report r =>
    have written :
        ∃ new, (s₁.perform ⟨e, .standard⟩ ((Task.report r).invocation globals)).1.written = new ++ s₁.written ∧
          ∀ w ∈ new, w.stream = .err := by
      rw [Session.perform, h₁.chain, Task.invocation, Invocation.reporting, Chain.stage_handleError]
      exact written_handleError _ s₁ _
    obtain ⟨new, hw, herr⟩ := written
    have unseen : new.reverse.filter (·.stream = .out) = [] :=
      List.filter_eq_nil_iff.2 fun w hmem => by simp [herr w (List.mem_reverse.1 hmem)]
    rw [shownBy_eq hs hw, unseen, Task.invocation, Invocation.reporting, Chain.stage_handleError]
    rfl

theorem Stands.atConsole (h : s.Stands globals a) : s.atConsole = a.cursor.any (·.isConsole) := by
  unfold Session.atConsole
  rw [h.chain, h.readStep, Chain.slot_read, Stance.slot]
  cases a.cursor <;> rfl

theorem Stands.results (h : s.Stands globals a) (tools : Tools σ) (ht : a.Admits t) :
    s.results tools (t.invocation globals) = a.results tools.evaluator globals t := by
  unfold Session.results
  rw [h.atConsole, h.chain]
  cases t with
  | read payload => rw [Task.invocation, Invocation.reading, Chain.stage_read]; rfl
  | evaluate d shown =>
    rw [Task.invocation, Invocation.evaluating, Chain.stage_eval, h.evaluation]
    rfl
  | print v => rw [Task.invocation, Invocation.printing, show a.printing = true from ht, Chain.stage_print]; rfl
  | report r => rw [Task.invocation, Invocation.reporting, Chain.stage_handleError]; rfl

end Stands

end Session

/-! ## The invariant -/

namespace Stance

/-- What a session knows of what it is about to do.  What it evaluates is worded and is to be shown if it came from a
console, which is still there; and what it prints is worded. -/
def Minds (a : Stance Interpreter) : Task → Prop
  | .evaluate d shown => d.Worded ∧ a.cursor.any (·.isConsole) = shown
  | .print v => v.Worded
  | .read _ | .report _ => True

variable {a : Stance Interpreter} {globals : FrameId} {t : Task}

theorem printed_afterRead (a : Stance Interpreter) (c : Cursor) (result : Except ReadFailure (Option Datum)) :
    (a.afterRead c result).2.elim [] Task.printed = [] := by
  rcases result with ((_ | _ | _ | _) | _) | _ | d <;> rfl

/-- **What is printed next is the result of this task.** -/
theorem printed_next (ht : a.Minds t) (broken : Option StepFailure) :
    (a.next .standard globals broken t).2.elim [] Task.printed = a.results .standard globals t := by
  cases t with
  | read payload =>
    cases htake : a.take? with
    | none => rw [next_read_none htake]; rfl
    | some taken =>
      rw [next_read_some htake rfl]
      exact printed_afterRead _ _ _
  | evaluate d shown =>
    obtain ⟨-, rfl⟩ := ht
    unfold next results Replier.standard
    dsimp only [Option.elim]
    cases (Evaluator.standard.eval a.evaluation d globals).2 <;> cases a.cursor.any (·.isConsole) <;> rfl
  | print v => cases broken <;> rfl
  | report r => rfl

theorem minds_afterRead (a : Stance Interpreter) (c : Cursor) {result : Except ReadFailure (Option Datum)}
    (h : ∀ d, result = .ok (some d) → d.Worded) :
    ∀ t' ∈ (a.afterRead c result).2, (a.afterRead c result).1.Minds t' := by
  intro t' ht'
  match result with
  | .ok (some d) =>
    cases ht'
    exact ⟨h d rfl, rfl⟩
  | .error (.input .interrupted) => cases ht'
  | .ok none | .error (.text _ _) | .error (.input (.collapsed _)) | .error (.input (.unreadable _ _))
  | .error (.input (.console _)) => cases ht'; trivial

theorem minds_afterEval (a : Stance Interpreter) {verdict : Verdict} (h : ∀ v, verdict = .resume v → v.Worded)
    (shown : Bool) :
    a.Minds (afterEval shown verdict.reply) := by
  cases verdict with
  | resume v =>
    cases shown with
    | true => exact h v rfl
    | false => trivial
  | raise | fault | panic | proceed | unfinished => trivial

/-- **A step makes up no names.** -/
theorem Minds.next (ht : a.Minds t) (hs : a.evaluation.machine.store.Worded) (broken : Option StepFailure) :
    (a.next .standard globals broken t).1.evaluation.machine.store.Worded ∧
      ∀ t' ∈ (a.next .standard globals broken t).2, (a.next .standard globals broken t).1.Minds t' := by
  cases t with
  | read payload =>
    cases htake : a.take? with
    | none =>
      rw [next_read_none htake]
      exact ⟨hs, nofun⟩
    | some taken =>
      rcases hread : taken.1.ready.read with ⟨c, result⟩
      rw [next_read_some htake hread, evaluation_afterRead]
      refine ⟨hs, minds_afterRead _ _ fun d hd => ?_⟩
      exact Cursor.worded_of_read (hd ▸ hread)
  | evaluate d shown =>
    obtain ⟨s', hs', -, hworded, hvalue⟩ := Discipline.worded.standard_keeps id a.evaluation d globals hs (ht.1 _)
    refine ⟨(congrArg Store.Worded hs').mpr hworded, fun t' ht' => ?_⟩
    cases ht'
    exact minds_afterEval _ hvalue shown
  | print v =>
    refine ⟨hs, fun t' ht' => ?_⟩
    cases ht'
    cases broken <;> trivial
  | report r =>
    refine ⟨hs, fun t' ht' => ?_⟩
    cases ht'
    trivial

end Stance

namespace Session

variable {s : Session Interpreter} {globals : FrameId}

/-- The interpreter, and the printer of values. -/
abbrev Tools.standard : Tools Interpreter := ⟨.standard, .standard⟩

/-- A session that keeps to words: in the store, in what it is about to evaluate and in what it is about to print. -/
def KeepsToWords (globals : FrameId) : Session Interpreter → Status → Prop :=
  Upholds globals (fun a => a.evaluation.machine.store.Worded) Stance.Minds

namespace KeepsToWords

theorem start (outlet : Outlet) (sources : List Source) (args : List String) (limit : Nat) :
    let begun := Interpreter.start args limit
    KeepsToWords begun.globals (startOn outlet sources begun begun.globals)
      (startOn outlet sources begun begun.globals).initial :=
  Upholds.start outlet sources _ (Interpreter.start_worded args limit) trivial

theorem step {i : Invocation} (h : s.KeepsToWords globals (.running i)) :
    (s.step .standard i).1.KeepsToWords globals (s.step .standard i).2 :=
  Upholds.step h (fun _ _ broken hs ht => ht.next hs broken) .standard

theorem runFor {status : Status} (h : s.KeepsToWords globals status) (n : Nat) :
    (s.runFor .standard n status).1.KeepsToWords globals (s.runFor .standard n status).2 :=
  Upholds.runFor h (fun _ _ broken hs ht => ht.next hs broken) .standard n

theorem worded_store {status : Status} (h : s.KeepsToWords globals status) : s.evaluation.machine.store.Worded := by
  obtain ⟨a, hs, hworded, -⟩ := h
  rwa [hs.evaluation]

theorem worded_toPrint {status : Status} (h : s.KeepsToWords globals status) : ∀ v ∈ s.toPrint status, v.Worded := by
  obtain ⟨a, hs, -, hrunning⟩ := h
  intro v hv
  cases status with
  | running i =>
    obtain ⟨t, rfl, ht, hminds⟩ := hrunning i rfl
    rw [hs.toPrint_running ht] at hv
    cases t with
    | print w =>
      cases List.mem_singleton.1 hv
      exact hminds
    | read | evaluate | report => cases hv
  | halted | crashed | unfinished => cases hv

/-- **What a step shows is what was to be printed, and what it comes to is to be printed next.** -/
theorem lines_step {i : Invocation} (h : s.KeepsToWords globals (.running i)) :
    s.lines .standard i = (s.toPrint (.running i)).map Value.line ∧
    (s.step .standard i).1.toPrint (s.step .standard i).2 = s.results .standard i := by
  obtain ⟨a, hs, -, hrunning⟩ := h
  obtain ⟨t, rfl, ht, hminds⟩ := hrunning i rfl
  rw [hs.lines .standard ht, hs.toPrint_running ht, hs.results _ ht]
  refine ⟨rfl, ?_⟩
  obtain ⟨s', broken, hs', hstep | ⟨hstep, d, shown, rfl, hgiven⟩⟩ := hs.step_standard .standard ht
  · rw [hstep, hs'.toPrint_statusOf (ht.next broken)]
    exact Stance.printed_next hminds broken
  · rw [hstep, Stance.results, hgiven]
    cases a.cursor.any (·.isConsole) <;> rfl

/-- **The lines shown so far, and the one to come, are the results so far**, after the one that is to be printed at
first. -/
theorem lines_gather (n : Nat) {status : Status} (h : s.KeepsToWords globals status) :
    s.gather .standard (lines .standard) n status ++
        ((s.runFor .standard n status).1.toPrint (s.runFor .standard n status).2).map Value.line =
      (s.toPrint status ++ s.gather .standard (results .standard) n status).map Value.line := by
  induction n generalizing s status with
  | zero => simp [gather, Session.runFor]
  | succ n ih =>
    cases status with
    | running i =>
      obtain ⟨hlines, hprint⟩ := h.lines_step
      have later := ih h.step
      rw [hprint] at later
      rw [gather, gather, Session.runFor, hlines, List.append_assoc]
      dsimp only
      rw [later, ← List.map_append]
    | halted | crashed | unfinished => rfl

theorem worded_gather (n : Nat) {status : Status} (h : s.KeepsToWords globals status) :
    ∀ v ∈ s.gather .standard (results .standard) n status, v.Worded := by
  induction n generalizing s status with
  | zero => simp [gather]
  | succ n ih =>
    cases status with
    | running i =>
      rw [gather, ← h.lines_step.2]
      exact List.forall_mem_append.2 ⟨h.step.worded_toPrint, ih h.step⟩
    | halted | crashed | unfinished => nofun

end KeepsToWords

end Session

/-- What is read is evaluated to a worded value, where all values are worded. -/
theorem Interpreter.worded_evaluateIn {i : Interpreter} {f : FrameId} {d : Datum} {v : Value}
    (hs : i.machine.store.Worded) (hd : d.Worded) (hv : (i.evaluateIn f d).2 = .ok v) : v.Worded := by
  obtain ⟨r, s', hin, -, -, hmeets⟩ := Discipline.worded.evaluateIn_keeps id i f d hs (hd _)
  rw [hin] at hv
  cases hv
  exact hmeets

/-- **Each result of a console is one line.**  Take any session with the interpreter, over any sources and script
arguments, with any limit on nesting and any output.  After any number of steps, in all values that are bound the
symbols and the names of closures, in the bodies of closures as well, are words that say symbols; so is it with the
value of all that is read, wherever it is evaluated, and its text has neither a line feed nor a carriage return.  What
has been written to the standard output since the beginning, prompts apart, is one line for each expression from a
console that has been evaluated to a value, in this order, but for the last one if that is about to be printed. -/
theorem console_results_are_single_lines (outlet : Session.Outlet) (sources : List Source) (args : List String)
    (limit n : Nat) :
    let begun := Interpreter.start args limit
    let first := Session.startOn outlet sources begun begun.globals
    let now := first.runFor .standard n first.initial
    let results := first.gather .standard (Session.results .standard) n first.initial
    (∀ g name v, now.1.evaluation.machine.store.bound? g name = some v → v.Worded) ∧
    (∀ c c' d f v, Cursor.read c = (c', .ok (some d)) → (now.1.evaluation.evaluateIn f d).2 = .ok v →
      v.Worded ∧ OnOneLine v.text.toList) ∧
    (∀ v ∈ results, v.Worded ∧ OnOneLine v.text.toList) ∧
    first.gather .standard (Session.lines .standard) n first.initial ++ (now.1.toPrint now.2).map Value.line =
      results.map Value.line := by
  intro begun first now results
  have begins : first.KeepsToWords begun.globals first.initial := .start outlet sources args limit
  have stored : now.1.evaluation.machine.store.Worded := (begins.runFor n).worded_store
  refine ⟨fun g name v hv => stored.bound g name v trivial hv, fun c c' d f v hread hv => ?_, fun v hv => ?_, ?_⟩
  · have worded := Interpreter.worded_evaluateIn stored (Cursor.worded_of_read hread) hv
    exact ⟨worded, worded.onOneLine⟩
  · have worded := begins.worded_gather n v hv
    exact ⟨worded, worded.onOneLine⟩
  · have balance := begins.lines_gather n
    have none_yet : first.toPrint first.initial = [] := by
      obtain ⟨a, hs, -⟩ := begins
      rw [hs.initial]
      exact hs.toPrint_running (t := .read .none) trivial
    rwa [none_yet, List.nil_append] at balance

/-- A definition shows its name, and a call a list of a closure and of an argument of the script that itself has two
lines. -/
theorem definition_and_call_show_two_lines :
    let begun := Interpreter.start ["one\ntwo"] defaultDepthLimit
    let console : Source := .console [.line "(define (front x) (cons x *args*))", .line "(front front)"] none
    let first := Session.startOn ⟨.healthy, .healthy, 0, true⟩ [console] begun begun.globals
    let results := first.gather .standard (Session.results .standard) 6 first.initial
    results.map Value.line = ["front\n", "(#<lambda front> \"one\\ntwo\")\n"] ∧
    ∀ v ∈ results, OnOneLine v.text.toList := by
  intro begun console first results
  obtain ⟨-, -, worded, balance⟩ :=
    console_results_are_single_lines ⟨.healthy, .healthy, 0, true⟩ [console] ["one\ntwo"] defaultDepthLimit 6
  have shown : first.gather .standard (Session.lines .standard) 6 first.initial =
      ["front\n", "(#<lambda front> \"one\\ntwo\")\n"] := by decide +kernel
  have settled :
      ((first.runFor .standard 6 first.initial).1.toPrint (first.runFor .standard 6 first.initial).2).length = 0 := by
    decide +kernel
  rw [List.eq_nil_of_length_eq_zero settled, shown, List.map_nil, List.append_nil] at balance
  exact ⟨balance.symm, fun v hv => (worded v hv).2⟩

end LispSession
