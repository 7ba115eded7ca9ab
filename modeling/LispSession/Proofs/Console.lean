import LispSession.Proofs.Session.Refinement
import LispSession.Proofs.Lexing.TextAhead
/-!
# A console reads like a script

Take a console away from its cursor, and what is left is a cursor over the same lines (`Cursor.unattended`).  As long as
the prompts can be shown, the two go hand in hand: every operation below `seekDatum` takes both to the same place with
the same result, except for the name of the source in an error (`Agree`).  Only the search for a datum differs, as a
console gives up after one line; but then the other search goes on from the very place where the console is asked next
(`Attended.read`).
-/
namespace LispSession

/-! ## Everything a source holds -/

/-- All data and syntax errors of a source, one read after the other.  Reads that bring nothing are passed over until
the source is used up; a source that fails is left there. -/
def Cursor.findings (c : Cursor) : List (Except ReadFailure Datum) :=
  match h : c.read with
  | (c', .ok none) =>
    if he : c'.isExhausted then []
    else
      have : c'.pending < c.pending := (read_nothing h).resolve_left he
      c'.findings
  | (c', .ok (some d)) =>
    have : c'.pending < c.pending := read_consumes h (.inl ⟨d, rfl⟩)
    .ok d :: c'.findings
  | (c', .error (.text error excerpt)) =>
    have : c'.pending < c.pending := read_consumes h (.inr ⟨error, excerpt, rfl⟩)
    .error (.text error excerpt) :: c'.findings
  | (_, .error (.input why)) => [.error (.input why)]
termination_by c.pending

namespace Cursor

/-- What comes of a source after a read. -/
def findingsAfter (c : Cursor) : Except ReadFailure (Option Datum) → List (Except ReadFailure Datum)
  | .ok none => if c.isExhausted then [] else c.findings
  | .ok (some d) => .ok d :: c.findings
  | .error (.text error excerpt) => .error (.text error excerpt) :: c.findings
  | .error (.input why) => [.error (.input why)]

theorem findings_eq (c : Cursor) : c.findings = c.read.1.findingsAfter c.read.2 := by
  rw [findings]
  split
  · next h =>
    conv_rhs => rw [h]
    rfl
  · next h =>
    conv_rhs => rw [h]
    rfl
  · next h =>
    conv_rhs => rw [h]
    rfl
  · next h =>
    conv_rhs => rw [h]
    rfl

/-- The same place in a text that is given in full. -/
def unattended (c : Cursor) : Cursor := { c with name := Source.codeName, console := none, prompt := none }

/-- A console that enters lines and shows all prompts. -/
structure Attended (c : Cursor) : Prop where
  name : c.name = Source.consoleName
  lines : ∃ later : List (List Char), c.deliveries = later.map .line
  lasting : c.lasting = none
  console : ∃ console, c.console = some console ∧ ∀ channel ∈ console.echo, channel.Healthy

end Cursor

/-- The same result, or the same error at the same place of the same text, which began on the same line; only the name
of the source is that of a console, or that of a text given in full. -/
inductive Retold {α : Type} : Except ReadFailure α → Except ReadFailure α → Prop
  | ok (a : α) : Retold (.ok a) (.ok a)
  | error (error : SyntaxError) (line : Nat) (text : String) :
      Retold (.error (.text error ⟨Source.consoleName ++ ":" ++ toString line, text⟩))
        (.error (.text error ⟨Source.codeName ++ ":" ++ toString line, text⟩))

theorem Retold.map {α β : Type} {x y : Except ReadFailure α} (h : Retold x y) (f : α → β) :
    Retold (x.map f) (y.map f) := by
  cases h with
  | ok a => exact .ok (f a)
  | error error line text => exact .error error line text

namespace Cursor

/-! ## Lines -/

variable {c : Cursor}

theorem Attended.isConsole (h : c.Attended) : c.isConsole = true := by
  obtain ⟨console, hconsole, -⟩ := h.console
  simp [Cursor.isConsole, hconsole]

theorem Attended.advance (h : c.Attended) (n : Nat) : (c.advance n).Attended := ⟨h.name, h.lines, h.lasting, h.console⟩

theorem Attended.skipBuffered (h : c.Attended) : c.skipBuffered.Attended := h.advance _

theorem Attended.showPrompt (h : c.Attended) : ∃ console : Console, (∀ channel ∈ console.echo, channel.Healthy) ∧
    c.showPrompt = ({ c with console := some console }, none) := by
  obtain ⟨⟨echo, promptings⟩, hconsole, hhealthy⟩ := h.console
  cases echo with
  | none =>
    have same : ({ c with console := some ⟨none, promptings⟩ } : Cursor) = c := by rw [← hconsole]
    refine ⟨⟨none, promptings⟩, hhealthy, ?_⟩
    rw [same, Cursor.showPrompt, hconsole]
  | some channel =>
    have hchannel : channel.Healthy := hhealthy channel rfl
    obtain ⟨channel₁, h₁, hwrite⟩ :=
      hchannel.write (if c.recording.isSome then continuationPrompt else c.prompt.getD "")
    obtain ⟨channel₂, h₂, hflush⟩ := h₁.flush
    rw [Cursor.showPrompt, hconsole]
    dsimp only
    rw [hwrite]
    dsimp only
    rw [hflush]
    exact ⟨⟨some channel₂, _⟩, fun channel' hmem => Option.mem_some.1 hmem ▸ h₂, rfl⟩

/-- A line is fetched, or the end is noticed, with the console or without it. -/
theorem Attended.nextLine (h : c.Attended) : ∃ c' found, c.nextLine = (c', .ok found) ∧
    c.unattended.nextLine = (c'.unattended, .ok found) ∧ c'.Attended ∧ c'.recording = c.recording ∧
    (found = true → c'.atEnd = false) := by
  by_cases hend : c.atEnd = true
  · refine ⟨c, false, ?_, ?_, h, rfl, nofun⟩
    · rw [Cursor.nextLine, if_pos hend]
    · rw [Cursor.nextLine, if_pos (show c.unattended.atEnd = true from hend)]
  · obtain ⟨console, hhealthy, hshow⟩ := h.showPrompt
    have hquiet : c.unattended.showPrompt = (c.unattended, none) := rfl
    rw [Cursor.nextLine, Cursor.nextLine, if_neg hend, if_neg (show ¬c.unattended.atEnd = true from hend), hshow,
      hquiet]
    dsimp only
    obtain ⟨later, hlines⟩ := h.lines
    have hlines' : c.unattended.deliveries = later.map .line := hlines
    rw [takeDelivery, takeDelivery, hlines, hlines']
    cases later with
    | nil =>
      have hlasting : c.unattended.lasting = none := h.lasting
      rw [List.map_nil, h.lasting, hlasting]
      exact ⟨_, false, rfl, rfl, ⟨h.name, ⟨[], rfl⟩, rfl, console, rfl, hhealthy⟩, rfl, nofun⟩
    | cons line later =>
      rw [List.map_cons]
      exact ⟨_, true, rfl, rfl, ⟨h.name, ⟨later, rfl⟩, h.lasting, console, rfl, hhealthy⟩, rfl,
        fun _ => by simpa using hend⟩

/-! ## Tokens and data -/

theorem Attended.skipAtmosphere {c : Cursor} (h : c.Attended) (ho : c.recording.isSome = true) :
    ∃ c', c.skipAtmosphere = (c', .ok ()) ∧ c.unattended.skipAtmosphere = (c'.unattended, .ok ()) ∧ c'.Attended ∧
      c'.recording.isSome = true := by
  have hskipped : c.skipBuffered.recording.isSome = true := by simpa [Cursor.skipBuffered, Cursor.advance] using ho
  by_cases hbuffered : c.skipBuffered.hasBuffered = true
  · exact ⟨_, skipAtmosphere_of_hasBuffered hbuffered, skipAtmosphere_of_hasBuffered (c := c.unattended) hbuffered,
      h.skipBuffered, hskipped⟩
  · have hused : c.skipBuffered.rest = [] := by simpa [hasBuffered] using hbuffered
    obtain ⟨c₁, found, hline, hline', h₁, hr, -⟩ := h.skipBuffered.nextLine
    rw [← hr] at hskipped
    rw [skipAtmosphere_of_nextLine hused hline, skipAtmosphere_of_nextLine (c := c.unattended) hused hline']
    cases found with
    | false => exact ⟨c₁, rfl, rfl, h₁, hskipped⟩
    | true =>
      have less : c₁.pending < c.pending := Nat.lt_of_lt_of_le (pending_nextLine_lt hline) (pending_skipBuffered_le c)
      exact h₁.skipAtmosphere hskipped
termination_by c.pending

end Cursor

open Cursor in
/-- Inside of a datum, a console and its lines have been read up to the same place with the same result. -/
structure Agree {α : Type} (x y : Cursor × Except ReadFailure α) : Prop where
  attended : x.1.Attended
  inside : x.1.recording.isSome = true
  place : y.1 = x.1.unattended
  result : Retold x.2 y.2

/-- Either both bring the same, or both fail in a way that stays alike whatever was asked for. -/
theorem Agree.cases {α : Type} {x y : Cursor × Except ReadFailure α} (h : Agree x y) :
    (∃ c a, x = (c, .ok a) ∧ y = (c.unattended, .ok a) ∧ c.Attended ∧ c.recording.isSome = true) ∨
    (∃ c failure failure', x = (c, .error failure) ∧ y = (c.unattended, .error failure') ∧
      ∀ {β : Type}, Agree (α := β) (c, .error failure) (c.unattended, .error failure')) := by
  obtain ⟨c, result⟩ := x
  obtain ⟨c', result'⟩ := y
  obtain ⟨hc, ho, rfl, hretold⟩ := h
  cases hretold with
  | ok a => exact .inl ⟨c, a, rfl, rfl, hc, ho⟩
  | error error line text => exact .inr ⟨c, _, _, rfl, rfl, hc, ho, rfl, .error error line text⟩

namespace Cursor

variable {c : Cursor}

theorem Attended.ok {α : Type} (h : c.Attended) (ho : c.recording.isSome = true) (a : α) :
    Agree (c, .ok a) (c.unattended, .ok a) := ⟨h, ho, rfl, .ok a⟩

theorem Attended.reject {α : Type} (h : c.Attended) (ho : c.recording.isSome = true) (error : SyntaxError) :
    Agree (α := α) (c, .error (c.reject error)) (c.unattended, .error (c.unattended.reject error)) := by
  obtain ⟨r, hr⟩ := Option.isSome_iff_exists.1 ho
  have hr' : c.unattended.recording = some r := hr
  refine ⟨h, ho, rfl, ?_⟩
  rw [Cursor.reject, Cursor.reject, excerpt, excerpt, hr, hr', h.name]
  exact .error error r.firstLine r.text

theorem recording_advance (ho : c.recording.isSome = true) (n : Nat) : (c.advance n).recording.isSome = true := by
  simpa [Cursor.advance] using ho

theorem Attended.finishString {c : Cursor} (h : c.Attended) (ho : c.recording.isSome = true) (start : Nat)
    (text : String) (escaped : Bool) :
    Agree (c.finishString start text escaped) (c.unattended.finishString start text escaped) := by
  cases hscan : scanString text escaped 0 c.rest with
  | closed taken text' =>
    have hscan' : scanString text escaped 0 c.unattended.rest = .closed taken text' := hscan
    rw [Cursor.finishString, hscan, Cursor.finishString, hscan']
    exact (h.advance taken).ok (recording_advance ho taken) text'
  | unknownEscape taken character =>
    have hscan' : scanString text escaped 0 c.unattended.rest = .unknownEscape taken character := hscan
    rw [Cursor.finishString, hscan, Cursor.finishString, hscan']
    exact (h.advance taken).reject (recording_advance ho taken) _
  | unfinished text' escaped' =>
    obtain ⟨c₁, found, hline, hline', h₁, hr, -⟩ := (h.advance c.rest.length).nextLine
    have ho₁ : c₁.recording.isSome = true := hr ▸ recording_advance ho _
    rw [finishString_of_nextLine hscan hline, finishString_of_nextLine (c := c.unattended) hscan hline']
    cases found with
    | false => exact h₁.reject ho₁ _
    | true =>
      have less : c₁.pending < c.pending := Nat.lt_of_lt_of_le (pending_nextLine_lt hline) (pending_advance_le c _)
      exact h₁.finishString ho₁ start text' escaped'
termination_by c.pending

theorem Attended.takeString (h : c.Attended) (ho : c.recording.isSome = true) :
    Agree c.takeString c.unattended.takeString := by
  have hbody : Agree ((c.advance 1).finishString c.offset "" false)
      ((c.unattended.advance 1).finishString c.unattended.offset "" false) :=
    (h.advance 1).finishString (recording_advance ho 1) c.offset "" false
  obtain ⟨c₁, text, hfinish, hfinish', h₁, ho₁⟩ | ⟨c₁, failure, failure', hfinish, hfinish', hagree⟩ := hbody.cases
  · rw [Cursor.takeString, hfinish, Cursor.takeString, hfinish']
    exact h₁.ok ho₁ _
  · rw [Cursor.takeString, hfinish, Cursor.takeString, hfinish']
    exact hagree

theorem Attended.takeWord (h : c.Attended) (ho : c.recording.isSome = true) (word : List Char) :
    Agree (c.takeWord word) (c.unattended.takeWord word) := by
  rw [Cursor.takeWord, Cursor.takeWord]
  cases classifyWord word with
  | some lexeme => exact (h.advance word.length).ok (recording_advance ho _) _
  | none => exact (h.advance word.length).reject (recording_advance ho _) _

theorem Attended.takeMark (h : c.Attended) (ho : c.recording.isSome = true) (lexeme : Lexeme) :
    Agree (c.takeMark lexeme) (c.unattended.takeMark lexeme) :=
  (h.advance 1).ok (recording_advance ho 1) _

theorem Attended.takeToken (h : c.Attended) (ho : c.recording.isSome = true) (first : Char) (after : List Char) :
    Agree (c.takeToken first after) (c.unattended.takeToken first after) := by
  unfold Cursor.takeToken
  split
  · exact h.takeMark ho .openParen
  · exact h.takeMark ho .closeParen
  · exact h.takeMark ho .quote
  · exact h.takeString ho
  · exact h.takeWord ho _

theorem Attended.nextToken (h : c.Attended) (ho : c.recording.isSome = true) :
    Agree c.nextToken c.unattended.nextToken := by
  obtain ⟨c₁, hskip, hskip', h₁, ho₁⟩ := h.skipAtmosphere ho
  rw [Cursor.nextToken, hskip, Cursor.nextToken, hskip']
  dsimp only
  rw [show c₁.unattended.rest = c₁.rest from rfl]
  cases c₁.rest with
  | nil => exact h₁.ok ho₁ none
  | cons first after =>
    dsimp only
    obtain ⟨c₂, t, htake, htake', h₂, ho₂⟩ | ⟨c₂, failure, failure', htake, htake', hagree⟩ :=
      (h₁.takeToken ho₁ first after).cases
    · rw [htake, htake']
      exact h₂.ok ho₂ (some t)
    · rw [htake, htake']
      exact hagree

theorem Attended.feedParser {c : Cursor} (h : c.Attended) (ho : c.recording.isSome = true) (p : Parser) :
    Agree (c.feedParser p) (c.unattended.feedParser p) := by
  obtain ⟨c₁, found, hnext, hnext', h₁, ho₁⟩ | ⟨c₁, failure, failure', hnext, hnext', hagree⟩ := (h.nextToken ho).cases
  · cases found with
    | none =>
      rw [feedParser_of_end hnext, feedParser_of_end hnext']
      exact h₁.reject ho₁ _
    | some t =>
      rw [feedParser_of_token hnext, feedParser_of_token hnext']
      cases p.push t with
      | done d => exact h₁.ok ho₁ d
      | failed error => exact h₁.reject ho₁ error
      | more p' =>
        have less : c₁.pending < c.pending := nextToken_pending_lt hnext
        exact h₁.feedParser ho₁ p'
  · rw [feedParser_of_error hnext, feedParser_of_error hnext']
    exact hagree
termination_by c.pending

/-! ## The search for a datum -/

theorem seekDatum_of_hasBuffered (h : c.skipBuffered.hasBuffered = true) (fetched : Bool) :
    c.seekDatum fetched = (c.skipBuffered, .ok true) := by
  rw [seekDatum]
  simp only [h, if_true]

theorem skipBuffered_of_used (h : c.skipBuffered.rest = []) : c.skipBuffered.skipBuffered = c.skipBuffered := by
  rw [skipBuffered, h, atmosphere, atmosphereFrom, advance_zero]

/-- A console that was asked for a line gives up when nothing is on it; a text goes on from there. -/
theorem Attended.seekDatum_again (h : c.Attended) (hend : c.atEnd = false) :
    (∃ c' found, c.seekDatum true = (c', .ok found) ∧ c.unattended.seekDatum true = (c'.unattended, .ok found) ∧
      c'.Attended) ∨
    (∃ c', c.seekDatum true = (c', .ok false) ∧
      c.unattended.seekDatum true = c'.unattended.seekDatum false ∧ c'.Attended ∧ c'.atEnd = false) := by
  by_cases hbuffered : c.skipBuffered.hasBuffered = true
  · exact .inl ⟨_, true, seekDatum_of_hasBuffered hbuffered true,
      seekDatum_of_hasBuffered (c := c.unattended) hbuffered true, h.skipBuffered⟩
  · have hused : c.skipBuffered.rest = [] := by simpa [hasBuffered] using hbuffered
    -- Nothing is left of the line, so looking at it once more, as the next search does, changes nothing.
    refine .inr ⟨c.skipBuffered, ?_, ?_, h.skipBuffered, hend⟩
    · rw [Cursor.seekDatum]
      simp only [hbuffered, h.skipBuffered.isConsole, Bool.true_and, Bool.false_eq_true, if_false, if_true]
    · have hstay : c.skipBuffered.unattended.skipBuffered = c.skipBuffered.unattended :=
        skipBuffered_of_used (c := c.unattended) hused
      obtain ⟨c₁, found, -, hline, -⟩ := h.skipBuffered.nextLine
      rw [seekDatum_of_used (c := c.unattended) (.inr rfl) hused hline,
        seekDatum_of_used (c := c.skipBuffered.unattended) (.inr rfl) (by rw [hstay]; exact hused)
          (by rw [hstay]; exact hline)]

theorem Attended.seekDatum (h : c.Attended) :
    (∃ c' found, c.seekDatum false = (c', .ok found) ∧ c.unattended.seekDatum false = (c'.unattended, .ok found) ∧
      c'.Attended) ∨
    (∃ c', c.seekDatum false = (c', .ok false) ∧
      c.unattended.seekDatum false = c'.unattended.seekDatum false ∧ c'.Attended ∧ c'.atEnd = false) := by
  by_cases hbuffered : c.skipBuffered.hasBuffered = true
  · exact .inl ⟨_, true, seekDatum_of_hasBuffered hbuffered false,
      seekDatum_of_hasBuffered (c := c.unattended) hbuffered false, h.skipBuffered⟩
  · have hused : c.skipBuffered.rest = [] := by simpa [hasBuffered] using hbuffered
    obtain ⟨c₁, found, hline, hline', h₁, -, hend⟩ := h.skipBuffered.nextLine
    rw [seekDatum_of_used (.inl rfl) hused hline, seekDatum_of_used (c := c.unattended) (.inl rfl) hused hline']
    cases found with
    | false => exact .inl ⟨c₁, false, rfl, rfl, h₁⟩
    | true =>
      rw [if_pos rfl, if_pos rfl]
      exact h₁.seekDatum_again (hend rfl)

theorem Attended.openDatum (h : c.Attended) : c.openDatum.Attended := ⟨h.name, h.lines, h.lasting, h.console⟩

theorem Attended.closeDatum (h : c.Attended) : c.closeDatum.Attended := ⟨h.name, h.lines, h.lasting, h.console⟩

/-- **A console and its lines are read alike**, or the console has brought nothing and is not at its end, and reading
its lines comes to the same as reading those that are left. -/
theorem Attended.read (h : c.Attended) :
    (∃ c' result result', c.read = (c', result) ∧ c.unattended.read = (c'.unattended, result') ∧ c'.Attended ∧
      Retold result result') ∨
    (∃ c', c.read = (c', .ok none) ∧ c.unattended.read = c'.unattended.read ∧ c'.Attended ∧
      c'.isExhausted = false) := by
  obtain ⟨c₁, found, hseek, hseek', h₁⟩ | ⟨c₁, hseek, hseek', h₁, hend⟩ := h.seekDatum
  · refine .inl ?_
    cases found with
    | false =>
      rw [Cursor.read, hseek, Cursor.read, hseek']
      exact ⟨c₁, .ok none, .ok none, rfl, rfl, h₁, .ok none⟩
    | true =>
      have hparse := h₁.openDatum.feedParser rfl .start
      have hplace : (c₁.unattended.openDatum.feedParser .start).1 = _ := hparse.place
      rw [Cursor.read, hseek, Cursor.read, hseek']
      dsimp only
      rw [hplace]
      exact ⟨_, _, _, rfl, rfl, hparse.attended.closeDatum, hparse.result.map some⟩
  · refine .inr ⟨c₁, ?_, ?_, h₁, by rw [isExhausted, hend, Bool.false_and]⟩
    · rw [Cursor.read, hseek]
    · rw [Cursor.read, hseek', Cursor.read]

theorem Attended.findings {c : Cursor} (h : c.Attended) : List.Forall₂ Retold c.findings c.unattended.findings := by
  obtain ⟨c', result, result', hread, hread', h', hretold⟩ | ⟨c', hread, hread', h', hend⟩ := h.read
  · rw [findings_eq c, hread, findings_eq c.unattended, hread']
    cases hretold with
    | ok found =>
      cases found with
      | none =>
        by_cases hend : c'.isExhausted = true
        · rw [findingsAfter, if_pos hend, findingsAfter, if_pos (show c'.unattended.isExhausted = true from hend)]
          exact .nil
        · have less : c'.pending < c.pending := (read_nothing hread).resolve_left hend
          rw [findingsAfter, if_neg hend, findingsAfter, if_neg (show ¬c'.unattended.isExhausted = true from hend)]
          exact h'.findings
      | some d =>
        have less : c'.pending < c.pending := read_consumes hread (.inl ⟨d, rfl⟩)
        exact .cons (.ok d) h'.findings
    | error error line text =>
      have less : c'.pending < c.pending := read_consumes hread (.inr ⟨error, _, rfl⟩)
      exact .cons (.error error line text) h'.findings
  · -- The text has gone on by itself to where the console is asked for its next line.
    have less : c'.pending < c.pending := (read_nothing hread).resolve_left (by simp [hend])
    have hgoes : c.findings = c'.findings := by
      rw [findings_eq c, hread, findingsAfter, hend, if_neg Bool.false_ne_true]
    have hgoes' : c.unattended.findings = c'.unattended.findings := by
      rw [findings_eq c.unattended, hread', ← findings_eq]
    rw [hgoes, hgoes']
    exact h'.findings
termination_by c.pending

end Cursor

/-! ## Entered lines -/

theorem linesAfter_line {line : List Char} (h : '\n' ∉ line) (done : List (List Char)) (front later : List Char) :
    linesAfter '\n' done front (line ++ '\n' :: later) =
      linesAfter '\n' ((front.reverse ++ line ++ ['\n']) :: done) [] later := by
  induction line generalizing front with
  | nil => simp [linesAfter]
  | cons c cs ih =>
    rw [List.mem_cons, not_or] at h
    rw [List.cons_append, linesAfter, if_neg (by simpa using Ne.symm h.1), ih h.2]
    simp

theorem linesAfter_lines {lines : List (List Char)} (h : ∀ line ∈ lines, '\n' ∉ line) (done : List (List Char)) :
    linesAfter '\n' done [] (lines.flatMap (· ++ ['\n'])) = (done.reverse ++ lines.map (· ++ ['\n']), []) := by
  induction lines generalizing done with
  | nil => simp [linesAfter]
  | cons line lines ih =>
    rw [List.flatMap_cons, List.append_assoc, List.singleton_append, linesAfter_line (h line List.mem_cons_self),
      ih fun l hl => h l (List.mem_cons_of_mem _ hl)]
    simp

/-- Entered lines come as the lines of the text that they make, each with a line end of its own. -/
theorem feed_console {lines : List String} (h : ∀ line ∈ lines, '\n' ∉ line.toList) (echo : Option Channel) :
    (Source.console (lines.map .line) echo).feed = (Source.code (String.join (lines.map (· ++ "\n")))).feed := by
  have htext : (String.join (lines.map (· ++ "\n"))).toList = (lines.map String.toList).flatMap (· ++ ['\n']) := by
    simp [String.toList_join, List.flatMap_map]
  have hlines : ∀ line ∈ lines.map String.toList, '\n' ∉ line := by simpa using h
  rw [Source.feed, Source.feed, Feed.ofText, splitLines, htext, linesAfter_lines hlines []]
  simp [ConsoleEvent.delivery, Function.comp_def]

theorem unattended_start {lines : List String} (h : ∀ line ∈ lines, '\n' ∉ line.toList) (echo : Option Channel)
    (prompt : Option String) :
    ({ Cursor.start (.console (lines.map .line) echo) with prompt } : Cursor).unattended =
      Cursor.start (.code (String.join (lines.map (· ++ "\n")))) := by
  simp only [Cursor.unattended, Cursor.start, feed_console h, Source.name]

theorem attended_start (lines : List String) {echo : Option Channel} (h : ∀ channel ∈ echo, channel.Healthy)
    (prompt : Option String) :
    ({ Cursor.start (.console (lines.map .line) echo) with prompt } : Cursor).Attended where
  name := rfl
  lines := ⟨lines.map (·.toList ++ ['\n']), by simp [Cursor.start, Source.feed, ConsoleEvent.delivery,
    Function.comp_def]⟩
  lasting := rfl
  console := ⟨⟨echo, []⟩, rfl, h⟩

/-- **A console reads like a script.**  Whoever enters lines finds the same data and the same errors, in the same order,
as in a text of these lines, whatever the prompt is and whether it is shown or not. -/
theorem console_reads_like_script (lines : List String) (hlines : ∀ line ∈ lines, '\n' ∉ line.toList)
    (echo : Option Channel) (hecho : ∀ channel ∈ echo, channel.Healthy) (prompt : Option String) :
    List.Forall₂ Retold ({ Cursor.start (.console (lines.map .line) echo) with prompt } : Cursor).findings
      (Cursor.start (.code (String.join (lines.map (· ++ "\n"))))).findings := by
  have hfindings := (attended_start lines hecho prompt).findings
  rwa [unattended_start hlines echo prompt] at hfindings

/-- A blank line, data over line ends, a stray parenthesis in mid-line and an end inside of a list. -/
theorem entered_data_and_errors_line_up :
    (∀ line ∈ ["", "(a ; note", ") b", ") \"x", "y\" (c"], '\n' ∉ line.toList) ∧ Channel.healthy.Healthy ∧
    (Cursor.start (.code "\n(a ; note\n) b\n) \"x\ny\" (c\n")).findings =
      [.ok (.pair (.sym "a") .nil), .ok (.sym "b"),
        .error (.text (.unexpectedToken .closeParen ⟨0, 1⟩) ⟨"<code>:4", ")"⟩),
        .ok (.str "x\ny"), .error (.text (.unterminatedList ⟨0, 1⟩) ⟨"<code>:5", "(c\n"⟩)] ∧
    List.Forall₂ Retold
      (Cursor.start
        (.console [.line "", .line "(a ; note", .line ") b", .line ") \"x", .line "y\" (c"] (some .healthy))).findings
      (Cursor.start (.code "\n(a ; note\n) b\n) \"x\ny\" (c\n")).findings :=
  ⟨by decide, Channel.healthy_healthy, by with_unfolding_all rfl,
    console_reads_like_script ["", "(a ; note", ") b", ") \"x", "y\" (c"] (by decide) (some .healthy)
      (by rintro channel ⟨⟩; exact Channel.healthy_healthy) none⟩

end LispSession
