import LispSession.Proofs.FirstWrong
/-!
# What happens while reading

A reader is more than its results: it consumes characters, asks for lines, opens and closes data, and the order of these
matters to whoever sits at the console.  `Cursor.Does` is one such happening and `Cursor.Course` a row of them.  Every
function of the reader takes a cursor along some course (`nextToken_course`, `read_course`); what holds of all courses
holds of all of reading, and is proved one happening at a time.

The functions below `read` neither open nor close a datum: they only move (`Cursor.Moves`), so that what they consume is
what is added to the text of the open datum.
-/
namespace LispSession

/-- What can happen to a cursor: a character is consumed; a line is asked for, `seen` being the text of the open datum
so far; a datum is opened on a line, or closed. -/
inductive Happening where
  | took (character : Char)
  | asked (prompt : String) (seen : List Char)
  | opened (line : Nat)
  | closed (text : List Char)

namespace Happening

def character? : Happening → Option Char
  | .took ch => some ch
  | _ => none

def prompt? : Happening → Option String
  | .asked prompt _ => some prompt
  | _ => none

def seen? : Happening → Option (List Char)
  | .asked _ seen => some seen
  | _ => none

/-- Only the reader itself opens and closes data. -/
def isMove : Happening → Bool
  | .took _ | .asked _ _ => true
  | .opened _ | .closed _ => false

end Happening

/-- The characters consumed. -/
def taken (es : List Happening) : List Char := es.filterMap Happening.character?

/-- The prompts of the lines asked for. -/
def prompts (es : List Happening) : List String := es.filterMap Happening.prompt?

/-- What was seen of the open datum, each time a line was asked for. -/
def askedAt (es : List Happening) : List (List Char) := es.filterMap Happening.seen?

@[simp] theorem taken_append (es fs : List Happening) : taken (es ++ fs) = taken es ++ taken fs := List.filterMap_append

@[simp] theorem askedAt_append (es fs : List Happening) : askedAt (es ++ fs) = askedAt es ++ askedAt fs :=
  List.filterMap_append

@[simp] theorem prompts_append (es fs : List Happening) : prompts (es ++ fs) = prompts es ++ prompts fs :=
  List.filterMap_append

@[simp] theorem taken_nil : taken [] = [] := rfl

@[simp] theorem taken_took (ch : Char) (es : List Happening) : taken (.took ch :: es) = ch :: taken es := rfl

@[simp] theorem taken_asked (prompt : String) (seen : List Char) (es : List Happening) :
    taken (.asked prompt seen :: es) = taken es := rfl

@[simp] theorem taken_map_took (text : List Char) : taken (text.map .took) = text := by
  simp [taken, List.filterMap_map, Function.comp_def, Happening.character?]

@[simp] theorem askedAt_nil : askedAt [] = [] := rfl

@[simp] theorem askedAt_asked (prompt : String) (seen : List Char) (es : List Happening) :
    askedAt (.asked prompt seen :: es) = seen :: askedAt es := rfl

@[simp] theorem askedAt_map_took (text : List Char) : askedAt (text.map .took) = [] := by
  simp [askedAt, List.filterMap_map, Function.comp_def, Happening.seen?]

theorem mem_askedAt_append {s : List Char} {es fs : List Happening} :
    s ∈ askedAt (es ++ fs) ↔ s ∈ askedAt es ∨ s ∈ askedAt fs := by
  rw [askedAt_append, List.mem_append]

/-- The last thing to happen is that a character is consumed. -/
def EndsTaken (es : List Happening) : Prop := ∃ front ch, es = front ++ [.took ch]

theorem endsTaken_map {piece : List Char} (h : piece ≠ []) : EndsTaken (piece.map .took) := by
  refine ⟨piece.dropLast.map .took, piece.getLast h, ?_⟩
  rw [← List.map_singleton, ← List.map_append, List.dropLast_append_getLast h]

theorem EndsTaken.behind {fs : List Happening} (h : EndsTaken fs) (es : List Happening) : EndsTaken (es ++ fs) := by
  obtain ⟨front, ch, rfl⟩ := h
  exact ⟨es ++ front, ch, (List.append_assoc _ _ _).symm⟩

theorem Recording.append_nil (r : Recording) : r.append [] = r := rfl

theorem Recording.append_append (r : Recording) (a b : List Char) : (r.append a).append b = r.append (a ++ b) := by
  simp [Recording.append, List.reverseAux_eq, Nat.add_assoc]

namespace Cursor

/-! ## One thing after the other -/

/-- The text of the open datum so far. -/
def seen (c : Cursor) : List Char :=
  match c.recording with
  | some r => r.consumed.reverse
  | none => []

/-- The prompt a line is asked for with. -/
def linePrompt (c : Cursor) : String := if c.recording.isSome then continuationPrompt else c.prompt.getD ""

/-- One thing that happens to a cursor.  A line is asked for only where the current one is used up and the source has
not ended. -/
inductive Does : Cursor → Happening → Cursor → Prop
  | took {c : Cursor} {ch : Char} {after : List Char} (next : c.rest = ch :: after) : Does c (.took ch) (c.advance 1)
  | asked {c : Cursor} (used : c.rest = []) (goesOn : c.atEnd = false) :
      Does c (.asked c.linePrompt c.seen) c.nextLine.1
  | opened {c : Cursor} : Does c (.opened c.lineNumber) c.openDatum
  | closed {c : Cursor} : Does c (.closed c.seen) c.closeDatum

/-- One thing after the other. -/
inductive Course : Cursor → List Happening → Cursor → Prop
  | nil {c : Cursor} : Course c [] c
  | cons {c c' stop : Cursor} {e : Happening} {es : List Happening} (first : c.Does e c') (later : Course c' es stop) :
      Course c (e :: es) stop

variable {c c' c'' : Cursor} {e : Happening} {es fs : List Happening}

theorem Course.append (h : c.Course es c') (h' : c'.Course fs c'') : c.Course (es ++ fs) c'' := by
  induction h with
  | nil => exact h'
  | cons first _ ih => exact .cons first (ih h')

theorem Course.split :
    ∀ {es : List Happening} {c : Cursor}, c.Course (es ++ fs) c'' → ∃ m, c.Course es m ∧ m.Course fs c''
  | [], c, h => ⟨c, .nil, h⟩
  | e :: es, c, h => by
    cases h with
    | cons first later =>
      obtain ⟨m, hes, hfs⟩ := Course.split later
      exact ⟨m, .cons first hes, hfs⟩

theorem Does.course (h : c.Does e c') : c.Course [e] c' := .cons h .nil

/-- **What every happening keeps, a course keeps.** -/
theorem Course.keeps {P : Cursor → Prop} (step : ∀ {c e c'}, Does c e c' → P c → P c') (h : c.Course es c')
    (hc : P c) : P c' := by
  induction h with
  | nil => exact hc
  | cons first _ ih => exact ih (step first hc)

/-- A course on which no datum is opened or closed. -/
structure Moves (c : Cursor) (es : List Happening) (c' : Cursor) : Prop where
  course : c.Course es c'
  moves : ∀ e ∈ es, e.isMove = true

theorem Moves.nil : c.Moves [] c := ⟨.nil, nofun⟩

theorem Moves.append (h : c.Moves es c') (h' : c'.Moves fs c'') : c.Moves (es ++ fs) c'' :=
  ⟨h.course.append h'.course, fun e he => (List.mem_append.1 he).elim (h.moves e) (h'.moves e)⟩

theorem Moves.took {ch : Char} {after : List Char} (h : c.rest = ch :: after) : c.Moves [.took ch] (c.advance 1) :=
  ⟨(Does.took h).course, by simp [Happening.isMove]⟩

theorem Moves.asked (hr : c.rest = []) (hend : c.atEnd = false) : c.Moves [.asked c.linePrompt c.seen] c.nextLine.1 :=
  ⟨(Does.asked hr hend).course, by simp [Happening.isMove]⟩

theorem advance_one_advance (c : Cursor) (n : Nat) : (c.advance 1).advance n = c.advance (n + 1) := by
  unfold advance
  cases hr : c.rest with
  | nil => cases c.recording <;> simp [Recording.append_nil]
  | cons ch after => cases c.recording <;> simp [Recording.append_append]

theorem moves_advance (c : Cursor) (n : Nat) : c.Moves ((c.rest.take n).map .took) (c.advance n) := by
  induction n generalizing c with
  | zero =>
    rw [advance_zero, List.take_zero]
    exact .nil
  | succ n ih =>
    cases hr : c.rest with
    | nil =>
      have hsame : c.advance (n + 1) = c := by
        unfold advance
        obtain ⟨name, deliveries, lasting, console, prompt, rest, lineNumber, atEnd, recording⟩ := c
        cases hr
        cases recording <;> simp [Recording.append_nil]
      rw [hsame]
      exact .nil
    | cons ch after =>
      have hlater := ih (c.advance 1)
      have hrest : (c.advance 1).rest = after := by rw [advance, hr]; rfl
      rw [hrest, advance_one_advance] at hlater
      exact (Moves.took hr).append hlater

theorem moves_piece {piece after : List Char} (h : c.rest = piece ++ after) :
    c.Moves (piece.map .took) (c.advance piece.length) := by
  have hmoves := c.moves_advance piece.length
  rwa [h, List.take_left] at hmoves

/-! ## Asking for a line -/

/-- **What asking for a line can do**, apart from showing the prompt: it fails and leaves the source where it is, it
brings a line, it takes a failure that was delivered, or the source ends. -/
inductive Asked (c : Cursor) (console : Option Console) : Cursor × Except InputFailure Bool → Prop
  | stuck (why : InputFailure) : Asked c console ({ c with console }, .error why)
  | line {text : List Char} {later : List Delivery} (delivered : c.deliveries = .line text :: later) :
      Asked c console ({ c with console, deliveries := later, rest := text, lineNumber := c.lineNumber + 1 }, .ok true)
  | failure {why : InputFailure} {later : List Delivery} (delivered : c.deliveries = .failure why :: later) :
      Asked c console ({ c with console, deliveries := later }, .error why)
  | ended (delivered : c.deliveries = []) : Asked c console ({ c with console, rest := [], atEnd := true }, .ok false)

theorem showPrompt_console (c : Cursor) :
    ∃ why, c.showPrompt = ({ c with console := c.showPrompt.1.console }, why) := by
  unfold showPrompt
  split
  · dsimp only
    split
    · exact ⟨_, rfl⟩
    · exact ⟨_, rfl⟩
  · exact ⟨_, rfl⟩

theorem nextLine_asked (h : c.atEnd = false) : Asked c c.showPrompt.1.console c.nextLine := by
  obtain ⟨why, hshow⟩ := c.showPrompt_console
  generalize c.showPrompt.1.console = console at hshow
  rw [nextLine, h, if_neg Bool.false_ne_true, hshow]
  cases why with
  | some why => exact .stuck why
  | none =>
    dsimp only
    unfold takeDelivery
    split
    · next hd => exact .line hd
    · next hd => exact .failure hd
    · next hd =>
      split
      · exact .stuck _
      · exact .ended hd

/-- Where a source has ended, nothing of it is left. -/
theorem Does.used (h : c.Does e c') (hc : c.atEnd = true → c.rest = []) : c'.atEnd = true → c'.rest = [] := by
  cases h with
  | took next => exact fun hend => by cases next.symm.trans (hc hend)
  | asked used goesOn =>
    have hasked := nextLine_asked goesOn
    generalize c.nextLine = answer at hasked ⊢
    cases hasked with
    | stuck | failure => exact fun _ => used
    | line => exact fun hend => by cases goesOn.symm.trans hend
    | ended => exact fun _ => rfl
  | opened | closed => exact hc

/-- A source does not end as long as characters are consumed. -/
theorem Course.goesOn (h : c.Course es c') (hlast : EndsTaken es) (hc : c.atEnd = true → c.rest = []) :
    c'.atEnd = false := by
  obtain ⟨front, ch, rfl⟩ := hlast
  obtain ⟨m, hfront, hback⟩ := h.split
  have hm := hfront.keeps Does.used hc
  cases hback with
  | cons first later =>
    cases later
    cases first with
    | took next =>
      show m.atEnd = false
      by_contra hend
      cases next.symm.trans (hm (by simpa using hend))

theorem nextLine_of_atEnd (h : c.atEnd = true) : c.nextLine = (c, .ok false) := by rw [nextLine, if_pos h]

/-- Where the current line is used up, asking for the next one is no move or one. -/
theorem moves_nextLine (hr : c.rest = []) :
    ∃ es, c.Moves es c.nextLine.1 ∧ taken es = [] ∧ ∀ s ∈ askedAt es, s = c.seen := by
  cases hend : c.atEnd with
  | true => exact ⟨[], by rw [nextLine_of_atEnd hend]; exact .nil, rfl, nofun⟩
  | false => exact ⟨_, .asked hr hend, rfl, by simp⟩

/-! ## The open datum -/

theorem recording_nextLine (c : Cursor) : c.nextLine.1.recording = c.recording := by
  cases hend : c.atEnd with
  | true => rw [nextLine_of_atEnd hend]
  | false =>
    have hasked := nextLine_asked hend
    generalize c.nextLine = answer at hasked ⊢
    cases hasked <;> rfl

theorem map_append_nil (recording : Option Recording) : recording.map (·.append []) = recording := by
  cases recording <;> rfl

theorem Does.recording (h : c.Does e c') (he : e.isMove = true) :
    c'.recording = c.recording.map (·.append (taken [e])) := by
  cases h with
  | took next => rw [advance, next]; rfl
  | asked => rw [recording_nextLine, taken_asked, taken_nil, map_append_nil]
  | opened | closed => cases he

/-- **What is consumed is added to the text of the open datum.** -/
theorem Moves.recording (h : c.Moves es c') : c'.recording = c.recording.map (·.append (taken es)) := by
  obtain ⟨course, moves⟩ := h
  induction course with
  | nil => rw [taken_nil, map_append_nil]
  | @cons c c₁ c' e es first _ ih =>
    rw [ih fun e' he' => moves e' (List.mem_cons_of_mem _ he'), first.recording (moves e List.mem_cons_self),
      Option.map_map]
    congr 1
    funext r
    rw [Function.comp, Recording.append_append, ← taken_append]
    rfl

theorem Moves.isOpen (h : c.Moves es c') :
    c'.recording.isSome = c.recording.isSome := by rw [h.recording, Option.isSome_map]

theorem Moves.seen (h : c.Moves es c') (hopen : c.recording.isSome) : c'.seen = c.seen ++ taken es := by
  obtain ⟨r, hr⟩ := Option.isSome_iff_exists.1 hopen
  rw [Cursor.seen, Cursor.seen, h.recording, hr]
  simp [Recording.append, List.reverseAux_eq]

/-- The first thing to happen on a line that is not used up is that its next character is consumed. -/
theorem Moves.head (h : c.Moves es c') (hr : c.rest ≠ []) (hne : es ≠ []) : (taken es).head? = c.rest.head? := by
  obtain ⟨course, moves⟩ := h
  cases course with
  | nil => exact absurd rfl hne
  | cons first later =>
    cases first with
    | took next => rw [next]; rfl
    | asked used => exact absurd used hr
    | opened | closed => cases moves _ List.mem_cons_self

theorem offset_eq_seen (c : Cursor) : c.offset = utf8Length c.seen := by
  rw [offset, seen]
  cases c.recording with
  | none => rfl
  | some r => simp only [r.offset_eq, utf8Length_reverse]

theorem text_excerpt (c : Cursor) : c.excerpt.text = String.ofList c.seen := by
  rw [excerpt, seen]
  cases c.recording <;> rfl

theorem Does.name (h : c.Does e c') : c'.name = c.name := by
  cases h with
  | asked used goesOn =>
    have hasked := nextLine_asked goesOn
    generalize c.nextLine = answer at hasked ⊢
    cases hasked <;> rfl
  | took | opened | closed => rfl

/-- A datum is named after its source and the line it was opened on. -/
theorem Moves.excerpt (h : c.openDatum.Moves es c') :
    c'.excerpt = ⟨c.name ++ ":" ++ toString c.lineNumber, String.ofList (taken es)⟩ := by
  have hname : c'.name = c.name := h.course.keeps (P := fun m => m.name = c.name) (fun hdoes => hdoes.name.trans) rfl
  have htext : c'.excerpt.text = String.ofList (taken es) := by
    rw [text_excerpt, h.seen rfl]
    rfl
  rw [Cursor.excerpt, h.recording] at htext ⊢
  rw [hname] at htext ⊢
  exact congrArg (Excerpt.mk _) htext

/-! ## Whole lines -/

/-- Every line has its line end, as at a console. -/
structure WholeLines (c : Cursor) : Prop where
  rest : EndsLine c.rest
  lines : ∀ text, .line text ∈ c.deliveries → EndsLine text

theorem endsLine_nil : EndsLine [] := nofun

theorem Does.wholeLines (h : c.Does e c') (hc : c.WholeLines) : c'.WholeLines := by
  cases h with
  | @took ch after next =>
    refine ⟨?_, hc.lines⟩
    have hline := hc.rest
    rw [next] at hline
    rw [advance, next]
    exact @EndsLine.of_append [ch] after hline
  | asked used goesOn =>
    have hasked := nextLine_asked goesOn
    generalize c.nextLine = answer at hasked ⊢
    cases hasked with
    | stuck => exact ⟨hc.rest, hc.lines⟩
    | line delivered =>
      exact ⟨hc.lines _ (delivered ▸ List.mem_cons_self),
        fun text h => hc.lines text (delivered ▸ List.mem_cons_of_mem _ h)⟩
    | failure delivered => exact ⟨hc.rest, fun text h => hc.lines text (delivered ▸ List.mem_cons_of_mem _ h)⟩
    | ended delivered => exact ⟨endsLine_nil, hc.lines⟩
  | opened | closed => exact ⟨hc.rest, hc.lines⟩

/-- Where only whole lines come, a line that is used up has ended. -/
theorem WholeLines.last_taken (hc : c.WholeLines) (h : c.Course es c') {front : List Happening} {ch : Char}
    (hes : es = front ++ [.took ch]) (hr : c'.rest = []) : ch = '\n' := by
  subst hes
  obtain ⟨m, hfront, hlast⟩ := h.split
  have hm : m.WholeLines := hfront.keeps Does.wholeLines hc
  cases hlast with
  | cons first later =>
    cases later
    cases first with
    | @took ch after next =>
      rw [advance, next] at hr
      exact hm.rest ch (by rw [next, show after = [] from hr]; rfl)

end Cursor

/-! ## Blanks and comments -/

theorem Atmosphere.append {a b : List Char} (ha : Atmosphere a) (hb : Atmosphere b) : Atmosphere (a ++ b) := by
  induction ha with
  | nil => exact hb
  | blank hc _ ih => exact .blank hc ih
  | comment hline _ ih =>
    rw [List.cons_append, List.append_assoc, List.cons_append]
    exact .comment hline ih

/-- What is skipped of a whole line are blanks and whole comments. -/
theorem atmosphere_taken {line : List Char} (h : EndsLine line) : Atmosphere (line.take (atmosphere line)) := by
  -- A token behind the line ends its gap, so that `gapOf` can be compared with what is skipped of the line alone.
  have hgap : gapOf (line ++ ['x']) = line.take (atmosphere line) := by
    obtain ⟨gap, after, rfl, -, hn, hgap⟩ | ⟨hn, hgap⟩ := @atmosphere_cases line ['x'] (.inl h)
    · rw [hgap, hn, List.take_left]
    · rw [hgap, hn, List.take_length, gapOf_starts ⟨'x', [], rfl, by decide, by decide⟩, List.append_nil]
  obtain ⟨gap, ahead, -, hgap', hblank, -⟩ | ⟨hall, -⟩ := gapOf_spec (line ++ ['x'])
  · rwa [← hgap, hgap']
  · have hlength := congrArg List.length (hall.symm.trans hgap)
    simp only [List.length_append, List.length_take, List.length_singleton] at hlength
    omega

namespace Cursor

variable {c c' c'' : Cursor} {es fs : List Happening}

/-- A cursor goes over blanks and comments; whenever it asks for a line, it has seen nothing else. -/
structure GoesOver (c : Cursor) (es : List Happening) (c' : Cursor) : Prop where
  moves : c.Moves es c'
  gap : c.WholeLines → Atmosphere (taken es)
  asks : c.WholeLines → c.recording.isSome → ∀ s ∈ askedAt es, ∃ gap, s = c.seen ++ gap ∧ Atmosphere gap

theorem GoesOver.append (h : c.GoesOver es c') (h' : c'.GoesOver fs c'') : c.GoesOver (es ++ fs) c'' where
  moves := h.moves.append h'.moves
  gap hc := by
    rw [taken_append]
    exact (h.gap hc).append (h'.gap (h.moves.course.keeps Does.wholeLines hc))
  asks hc hopen s hs := by
    obtain hs | hs := mem_askedAt_append.1 hs
    · exact h.asks hc hopen s hs
    · obtain ⟨gap, rfl, hgap⟩ := h'.asks (h.moves.course.keeps Does.wholeLines hc) (h.moves.isOpen ▸ hopen) s hs
      exact ⟨taken es ++ gap, by rw [h.moves.seen hopen, List.append_assoc], (h.gap hc).append hgap⟩

theorem skipBuffered_goesOver (c : Cursor) :
    c.GoesOver ((c.rest.take (atmosphere c.rest)).map .took) c.skipBuffered where
  moves := c.moves_advance _
  gap hc := by
    rw [taken_map_took]
    exact atmosphere_taken hc.rest
  asks _ _ s hs := by
    rw [askedAt_map_took] at hs
    cases hs

theorem nextLine_goesOver (hr : c.rest = []) : ∃ es, c.GoesOver es c.nextLine.1 := by
  obtain ⟨es, hmoves, htaken, hasks⟩ := moves_nextLine hr
  exact ⟨es, hmoves, fun _ => htaken ▸ .nil, fun _ _ s hs => ⟨[], by rw [hasks s hs, List.append_nil], .nil⟩⟩

theorem skipBuffered_nextLine_goesOver {answer : Except InputFailure Bool} (hused : ¬c.skipBuffered.hasBuffered = true)
    (h : c.skipBuffered.nextLine = (c', answer)) : ∃ es, c.GoesOver es c' := by
  obtain ⟨es, hes⟩ := nextLine_goesOver (c := c.skipBuffered) (by simpa [hasBuffered] using hused)
  rw [h] at hes
  exact ⟨_, c.skipBuffered_goesOver.append hes⟩

theorem skipAtmosphere_goesOver (c : Cursor) : ∃ es, c.GoesOver es c.skipAtmosphere.1 := by
  fun_induction skipAtmosphere c with
  | case1 c skipped _ => exact ⟨_, c.skipBuffered_goesOver⟩
  | case2 c skipped hused c₁ hline _ ih =>
    obtain ⟨es, hes⟩ := skipBuffered_nextLine_goesOver hused hline
    obtain ⟨fs, hfs⟩ := ih
    exact ⟨_, hes.append hfs⟩
  | case3 c skipped hused c₁ hline => exact skipBuffered_nextLine_goesOver hused hline
  | case4 c skipped hused c₁ why hline => exact skipBuffered_nextLine_goesOver hused hline

theorem seekDatum_goesOver (fetched : Bool) (c : Cursor) : ∃ es, c.GoesOver es (c.seekDatum fetched).1 := by
  fun_induction seekDatum fetched c with
  | case1 fetched c skipped _ => exact ⟨_, c.skipBuffered_goesOver⟩
  | case2 fetched c skipped _ _ => exact ⟨_, c.skipBuffered_goesOver⟩
  | case3 fetched c skipped hused _ c₁ hline _ ih =>
    obtain ⟨es, hes⟩ := skipBuffered_nextLine_goesOver hused hline
    obtain ⟨fs, hfs⟩ := ih
    exact ⟨_, hes.append hfs⟩
  | case4 fetched c skipped hused _ c₁ hline => exact skipBuffered_nextLine_goesOver hused hline
  | case5 fetched c skipped hused _ c₁ why hline => exact skipBuffered_nextLine_goesOver hused hline

end Cursor

/-! ## Strings -/

theorem StringEnd.after_ne_missing (held : List Char) {ended : StringEnd} (h : ended ≠ .missing) :
    ended.after held ≠ .missing := by
  cases ended with
  | holds text => rw [after_holds]; nofun
  | unknownEscape e => rw [after_unknownEscape]; nofun
  | missing => exact absurd rfl h

theorem quotedFrom_ne_nil {escaped : Bool} {text piece : List Char} {ended : StringEnd}
    (h : quotedFrom escaped text = (piece, ended)) (hended : ended ≠ .missing) : piece ≠ [] := by
  rintro rfl
  cases text with
  | nil =>
    rw [quotedFrom_nil] at h
    cases h
    exact hended rfl
  | cons ch cs =>
    have hpiece := congrArg Prod.fst h
    cases escaped with
    | true =>
      rw [quotedFrom] at hpiece
      cases hescape : unescape? ch <;> rw [hescape] at hpiece <;> cases hpiece
    | false =>
      rw [quotedFrom] at hpiece
      by_cases hquote : ch = '"'
      · subst hquote
        cases hpiece
      · by_cases hbackslash : ch = '\\'
        · rw [hbackslash, quoted_backslash] at hpiece
          cases hpiece
        · rw [quoted_plain hquote hbackslash] at hpiece
          cases hpiece

namespace Cursor

variable {c c' c'' : Cursor} {es fs : List Happening}

/-- What reading a string that began at `start`, of which `text` is known, comes to at a cursor where it ends. -/
def stringEnds (c : Cursor) (start : Nat) (text : String) : StringEnd → Except ReadFailure String
  | .holds held => .ok (text ++ String.ofList held)
  | .unknownEscape e => .error (c.reject (.unknownEscape e (.between (Span.stepBack c.offset e.utf8Size) c.offset)))
  | .missing => .error (c.reject (.unterminatedString (.between start c.offset)))

theorem stringEnds_after (c : Cursor) (start : Nat) (text : String) (held : List Char) (ended : StringEnd) :
    c.stringEnds start (text ++ String.ofList held) ended = c.stringEnds start text (ended.after held) := by
  cases ended with
  | holds text' => rw [StringEnd.after_holds, stringEnds, stringEnds, String.ofList_append, String.append_assoc]
  | unknownEscape e => rw [StringEnd.after_unknownEscape]; rfl
  | missing => rw [StringEnd.after_missing]; rfl

/-- Whenever a line is asked for, the string has no end yet. -/
def AsksInString (c : Cursor) (escaped : Bool) (es : List Happening) : Prop :=
  c.recording.isSome → ∀ s ∈ askedAt es, ∃ body, s = c.seen ++ body ∧ quotedFrom escaped body = (body, .missing)

/-- A string is followed to its end, which is the last character consumed unless the source has ended; or no further
line can be had. -/
def StringCourse (c : Cursor) (start : Nat) (text : String) (escaped : Bool) (es : List Happening)
    (answer : Cursor × Except ReadFailure String) : Prop :=
  c.Moves es answer.1 ∧ c.AsksInString escaped es ∧
    ((∃ why, answer.2 = .error (.input why)) ∨
      ∃ ended, quotedFrom escaped (taken es ++ answer.1.rest) = (taken es, ended) ∧
        answer.2 = answer.1.stringEnds start text ended ∧
        (EndsTaken es ∧ ended ≠ .missing ∨ answer.1.isExhausted = true ∧ ended = .missing))

theorem stringCourse_ends {piece after : List Char} {ended : StringEnd} (hr : c.rest = piece ++ after) {start : Nat}
    {text : String} {escaped : Bool} (h : quotedFrom escaped c.rest = (piece, ended)) (hended : ended ≠ .missing)
    {n : Nat} (hn : n = piece.length) :
    c.StringCourse start text escaped (piece.map .took) (c.advance n, (c.advance n).stringEnds start text ended) := by
  subst hn
  refine ⟨moves_piece hr, fun _ s hs => ?_,
    .inr ⟨ended, ?_, rfl, .inl ⟨endsTaken_map (quotedFrom_ne_nil h hended), hended⟩⟩⟩
  · rw [askedAt_map_took] at hs
    cases hs
  · rw [taken_map_took, rest_advance hr, ← hr, h]

/-- A string that goes over the line end, as a part of the string as a whole. -/
theorem quotedFrom_unfinished {line : List Char} {text text' : String} {escaped escaped' : Bool}
    (h : scanString text escaped 0 line = .unfinished text' escaped') :
    quotedFrom escaped line = (line, .missing) ∧ ∃ held, text' = text ++ String.ofList held ∧
      ∀ more, quotedFrom escaped (line ++ more) = (line ++ (quotedFrom escaped' more).1,
        (quotedFrom escaped' more).2.after held) := by
  have follows (more : List Char) : ∃ held, text' = text ++ String.ofList held ∧
      quotedFrom escaped (line ++ more) =
          (line ++ (quotedFrom escaped' more).1, (quotedFrom escaped' more).2.after held) := by
    have hfollows := scanString_follows line more text escaped 0
    rw [h] at hfollows
    generalize quotedFrom escaped (line ++ more) = whole at hfollows ⊢
    cases hfollows with
    | unfinished => exact ⟨_, rfl, rfl⟩
  obtain ⟨held, htext, hline⟩ := follows []
  rw [quotedFrom_nil, StringEnd.after_missing, List.append_nil] at hline
  refine ⟨hline, held, htext, fun more => ?_⟩
  obtain ⟨held', htext', hwhole⟩ := follows more
  have hsame : held' = held := by
    have hlists := congrArg String.toList (htext'.symm.trans htext)
    simpa using hlists
  rwa [hsame] at hwhole

/-- Where a string goes over the line end, all of the line is consumed before the next one is asked for. -/
theorem string_nextLine {answer : Except InputFailure Bool} {escaped : Bool}
    (hscan : quotedFrom escaped c.rest = (c.rest, .missing)) (h : (c.advance c.rest.length).nextLine = (c', answer)) :
    ∃ es, c.Moves es c' ∧ taken es = c.rest ∧ c.AsksInString escaped es := by
  have hline : c.Moves (c.rest.map .took) (c.advance c.rest.length) := moves_piece (List.append_nil _).symm
  obtain ⟨es, hes, htaken, hasks⟩ := moves_nextLine c.rest_advance_all
  rw [h] at hes
  refine ⟨_, hline.append hes, by rw [taken_append, taken_map_took, htaken, List.append_nil], fun hopen s hs => ?_⟩
  rw [askedAt_append, askedAt_map_took, List.nil_append] at hs
  exact ⟨c.rest, by rw [hasks s hs, hline.seen hopen, taken_map_took], hscan⟩

theorem finishString_course (start : Nat) (text : String) (escaped : Bool) (c : Cursor) :
    ∃ es, c.StringCourse start text escaped es (c.finishString start text escaped) := by
  fun_induction finishString start text escaped c with
  | case1 text escaped c n text' hscan =>
    have hfollows := scanString_follows c.rest [] text escaped 0
    rw [hscan, List.append_nil] at hfollows
    generalize hwhole : quotedFrom escaped c.rest = whole at hfollows
    cases hfollows with
    | closed hr =>
      exact ⟨_, stringCourse_ends hr hwhole (by simp) (Nat.zero_add _)⟩
  | case2 text escaped c n e hscan =>
    have hfollows := scanString_follows c.rest [] text escaped 0
    rw [hscan, List.append_nil] at hfollows
    generalize hwhole : quotedFrom escaped c.rest = whole at hfollows
    cases hfollows with
    | unknownEscape hr =>
      exact ⟨_, stringCourse_ends hr hwhole (by simp) (Nat.zero_add _)⟩
  | case3 text escaped c text' escaped' hscan c₁ hline _ ih =>
    -- The string as a whole is this line and what the later ones come to; `held` is the part of its text known by now.
    obtain ⟨hmissing, held, rfl, hover⟩ := quotedFrom_unfinished hscan
    obtain ⟨es, hes, htaken, hasks⟩ := string_nextLine hmissing hline
    obtain ⟨fs, hfs, hasks', hends⟩ := ih
    refine ⟨es ++ fs, hes.append hfs, fun hopen s hs => ?_, hends.imp_right ?_⟩
    · obtain hs | hs := mem_askedAt_append.1 hs
      · exact hasks hopen s hs
      · obtain ⟨body, rfl, hbody⟩ := hasks' (hes.isOpen ▸ hopen) s hs
        refine ⟨c.rest ++ body, by rw [hes.seen hopen, htaken, List.append_assoc], ?_⟩
        rw [hover, hbody, StringEnd.after_missing]
    · rintro ⟨ended, hquoted, hanswer, hlast⟩
      refine ⟨ended.after held, ?_, by rw [hanswer, stringEnds_after], ?_⟩
      · rw [taken_append, htaken, List.append_assoc, hover, hquoted]
      · obtain ⟨hlast, hended⟩ | ⟨hend, rfl⟩ := hlast
        · exact .inl ⟨hlast.behind es, StringEnd.after_ne_missing held hended⟩
        · exact .inr ⟨hend, StringEnd.after_missing held⟩
  | case4 text escaped c text' escaped' hscan c₁ hline =>
    have hmissing := (quotedFrom_unfinished hscan).1
    obtain ⟨es, hes, htaken, hasks⟩ := string_nextLine hmissing hline
    have hend : c₁.isExhausted = true := isExhausted_of_nextLine hline c.rest_advance_all
    refine ⟨es, hes, hasks, .inr ⟨.missing, ?_, rfl, .inr ⟨hend, rfl⟩⟩⟩
    rw [(rest_of_isExhausted hend).1, List.append_nil, htaken, hmissing]
  | case5 text escaped c text' escaped' hscan c₁ why hline =>
    have hmissing := (quotedFrom_unfinished hscan).1
    obtain ⟨es, hes, htaken, hasks⟩ := string_nextLine hmissing hline
    exact ⟨es, hes, hasks, .inl ⟨why, rfl⟩⟩

/-! ## Tokens -/

/-- Whenever a line is asked for, all that was taken is a string without an end. -/
def AsksInPiece (c : Cursor) (es : List Happening) : Prop :=
  ∀ s ∈ askedAt es, ∃ body, s = c.seen ++ '"' :: body ∧ quoted body = (body, .missing)

theorem asksInPiece_map (c : Cursor) (piece : List Char) : c.AsksInPiece (piece.map .took) := fun s hs => by
  rw [askedAt_map_took] at hs
  cases hs

/-- The piece in front of a cursor is taken: `meaning` is what it says.  Its last character is the last one consumed,
unless it is a string that the source ends in. -/
structure Takes (c : Cursor) (es : List Happening) (c' : Cursor) (meaning : Except SyntaxError Lexeme) : Prop where
  moves : c.Moves es c'
  cut : ∃ first more, taken es ++ c'.rest = first :: more ∧ BeginsToken (first :: more) ∧
    firstPiece (utf8Length c.seen) first more = (taken es, meaning)
  stops : EndsTaken es ∧ (∀ place, meaning ≠ .error (.unterminatedString place)) ∨
    c'.isExhausted = true ∧ ∃ place, meaning = .error (.unterminatedString place)

/-- The token that a piece is, or the error, which is reported where the cursor stands then. -/
def itemTaken (c : Cursor) (es : List Happening) (c' : Cursor) (meaning : Except SyntaxError Lexeme) :
    Except ReadFailure Token :=
  (itemAt c.seen (taken es) meaning).mapError fun e => c'.reject e.error

/-- A piece is taken, or no line can be had in the midst of it. -/
def PieceCourse (c : Cursor) (es : List Happening) (answer : Cursor × Except ReadFailure Token) : Prop :=
  c.Moves es answer.1 ∧ c.AsksInPiece es ∧
    ((∃ why, answer.2 = .error (.input why)) ∨
      ∃ meaning, c.Takes es answer.1 meaning ∧ answer.2 = c.itemTaken es answer.1 meaning)

theorem Moves.token (h : c.Moves es c') (hopen : c.recording.isSome) (lexeme : Lexeme) :
    c'.token c.offset lexeme = ⟨lexeme, utf8Length c.seen, utf8Length (taken es)⟩ := by
  rw [Cursor.token, Span.between, offset_eq_seen, offset_eq_seen, h.seen hopen, utf8Length_append,
    Nat.add_sub_cancel_left]

theorem takeMark_course {m : Char} {after : List Char} {lexeme : Lexeme} (hopen : c.recording.isSome)
    (hr : c.rest = m :: after) (hs : BeginsToken c.rest)
    (hpiece : firstPiece (utf8Length c.seen) m after = ([m], .ok lexeme)) :
    c.PieceCourse [.took m] (c.takeMark lexeme) := by
  have hmoves : c.Moves [.took m] (c.advance 1) := .took hr
  have hrest : (c.advance 1).rest = after := by rw [advance, hr]; rfl
  refine ⟨hmoves, c.asksInPiece_map [m],
    .inr ⟨.ok lexeme, ⟨hmoves, ⟨m, after, ?_, hr ▸ hs, hpiece⟩, .inl ⟨⟨[], m, rfl⟩, by simp⟩⟩, ?_⟩⟩
  · rw [takeMark, hrest]
    rfl
  · rw [takeMark, hmoves.token hopen]
    rfl

theorem takeWord_course {first : Char} {after : List Char} (hopen : c.recording.isSome) (hr : c.rest = first :: after)
    (hs : BeginsToken c.rest) (hword : isDelimiter first = false) :
    c.PieceCourse ((first :: wordOf after).map .took) (c.takeWord (first :: wordOf after)) := by
  have hsplit : c.rest = (first :: wordOf after) ++ after.dropWhile (!isDelimiter ·) := by
    rw [hr, List.cons_append, wordOf, List.takeWhile_append_dropWhile]
  have hpiece := firstPiece_of_word (utf8Length c.seen) after hword
  have hne : first :: wordOf after ≠ [] := List.cons_ne_nil _ _
  change _ = wordPiece _ (first :: wordOf after) at hpiece
  generalize first :: wordOf after = word at hsplit hpiece hne ⊢
  have hmoves := moves_piece hsplit
  have htaken : taken (word.map .took) = word := taken_map_took word
  have hcut {meaning : Except SyntaxError Lexeme} (hmeaning : wordPiece (utf8Length c.seen) word = (word, meaning))
      (hclosed : ∀ place, meaning ≠ .error (.unterminatedString place)) :
      c.Takes (word.map .took) (c.advance word.length) meaning :=
    ⟨hmoves, ⟨first, after, by rw [htaken, rest_advance hsplit, ← hsplit, hr],
      hr ▸ hs, by rw [htaken, hpiece, hmeaning]⟩, .inl ⟨endsTaken_map hne, hclosed⟩⟩
  unfold takeWord
  cases hmeaning : classifyWord word with
  | some lexeme =>
    refine ⟨hmoves, c.asksInPiece_map word, .inr ⟨.ok lexeme, hcut (by rw [wordPiece, hmeaning]) (by simp), ?_⟩⟩
    dsimp only
    rw [hmoves.token hopen]
    rfl
  | none =>
    have htakes : c.Takes _ _ (.error (.unknownLiteral (String.ofList word) ⟨utf8Length c.seen, utf8Length word⟩)) :=
      hcut (by rw [wordPiece, hmeaning]) (by simp)
    refine ⟨hmoves, c.asksInPiece_map word, .inr ⟨_, htakes, ?_⟩⟩
    dsimp only
    rw [offset_eq_seen, Span.between, Nat.add_sub_cancel_left]
    rfl

theorem takeString_eq (c : Cursor) : c.takeString =
    (((c.advance 1).finishString c.offset "" false).1,
      ((c.advance 1).finishString c.offset "" false).2.map fun text =>
        ((c.advance 1).finishString c.offset "" false).1.token c.offset (.str text)) := by
  rw [takeString]
  rcases (c.advance 1).finishString c.offset "" false with ⟨c', failure | text⟩ <;> rfl

theorem stringEnds_itemTaken {more : List Char} {ended : StringEnd} (hopen : c.recording.isSome)
    (h : c.Moves (.took '"' :: es) c') (hquoted : quoted more = (taken es, ended)) :
    ((c'.stringEnds c.offset "" ended).map fun text => c'.token c.offset (.str text)) =
      c.itemTaken (.took '"' :: es) c' (stringPiece (utf8Length c.seen) more).2 := by
  have hseen := h.seen hopen
  rw [taken_took] at hseen
  cases ended with
  | holds text =>
    rw [stringEnds, String.empty_append, stringPiece, hquoted]
    show Except.ok (c'.token c.offset (.str (String.ofList text))) = _
    rw [h.token hopen]
    rfl
  | unknownEscape e =>
    obtain ⟨body, hbody⟩ := @quotedFrom_unknownEscape false _ _ _ hquoted
    have hlast : ('"' :: (body ++ [e])).dropLast = '"' :: body := by rw [← List.cons_append, List.dropLast_concat]
    have hoffset : c'.offset = utf8Length c.seen + utf8Length ('"' :: body) + e.utf8Size := by
      rw [offset_eq_seen, hseen, hbody]
      simp only [utf8Length_append, utf8Length_cons, utf8Length_nil]
      omega
    have hback : Span.stepBack c'.offset e.utf8Size = utf8Length c.seen + utf8Length ('"' :: body) := by
      rw [Span.stepBack, if_pos (by omega)]
      omega
    rw [stringEnds, stringPiece, hquoted, hbody]
    dsimp only
    rw [hback, hlast, Span.between, hoffset, Nat.add_sub_cancel_left]
    rfl
  | missing =>
    rw [stringEnds, stringPiece, hquoted, offset_eq_seen, offset_eq_seen, hseen, Span.between, utf8Length_append,
      Nat.add_sub_cancel_left]
    rfl

theorem takeString_course {after : List Char} (hopen : c.recording.isSome) (hr : c.rest = '"' :: after) :
    ∃ es, c.PieceCourse es c.takeString := by
  have hmark : c.Moves [.took '"'] (c.advance 1) := .took hr
  obtain ⟨es, hes, hasks, hends⟩ := finishString_course c.offset "" false (c.advance 1)
  rw [takeString_eq]
  generalize (c.advance 1).finishString c.offset "" false = answer at hes hends ⊢
  have hmoves : c.Moves (.took '"' :: es) answer.1 := hmark.append hes
  refine ⟨.took '"' :: es, hmoves, fun s hs => ?_, ?_⟩
  · obtain ⟨body, rfl, hbody⟩ := hasks (hmark.isOpen ▸ hopen) s hs
    exact ⟨body, by rw [hmark.seen hopen, List.append_assoc]; rfl, hbody⟩
  · obtain ⟨why, hwhy⟩ | ⟨ended, hquoted, hanswer, hlast⟩ := hends
    · exact .inl ⟨why, by rw [hwhy]; rfl⟩
    · change quoted _ = _ at hquoted
      refine .inr ⟨_, ⟨hmoves, ⟨'"', taken es ++ answer.1.rest, rfl, ⟨_, _, rfl, by decide, by decide⟩, ?_⟩, ?_⟩,
        (congrArg (Except.map _) hanswer).trans (stringEnds_itemTaken hopen hmoves hquoted)⟩
      · rw [firstPiece, stringPiece, hquoted]
        rfl
      · obtain ⟨hlast, hended⟩ | ⟨hend, rfl⟩ := hlast
        · refine .inl ⟨hlast.behind [.took '"'], fun place => ?_⟩
          rw [stringPiece, hquoted]
          cases ended with
          | holds | unknownEscape => simp
          | missing => exact absurd rfl hended
        · refine .inr ⟨hend, ?_⟩
          rw [stringPiece, hquoted]
          exact ⟨_, rfl⟩

theorem takeToken_course {first : Char} {after : List Char} (hopen : c.recording.isSome) (hr : c.rest = first :: after)
    (hs : BeginsToken c.rest) : ∃ es, c.PieceCourse es (c.takeToken first after) := by
  obtain hword | rfl | rfl | rfl | rfl := (hr ▸ hs).kinds
  · rw [takeToken_of_word hword]
    exact ⟨_, takeWord_course hopen hr hs hword⟩
  · exact ⟨_, takeMark_course hopen hr hs rfl⟩
  · exact ⟨_, takeMark_course hopen hr hs rfl⟩
  · exact ⟨_, takeMark_course hopen hr hs rfl⟩
  · exact takeString_course hopen hr

/-- How a search for the next token ends: at a line that cannot be had, at the end of the source, or with a piece. -/
inductive TokenCourse (c : Cursor) : List Happening → Cursor × Except ReadFailure (Option Token) → Prop
  | unreadable {es : List Happening} {c' : Cursor} {why : InputFailure} (skips : c.GoesOver es c') :
      TokenCourse c es (c', .error (.input why))
  | ended {es : List Happening} {c' : Cursor} (skips : c.GoesOver es c') (exhausted : c'.isExhausted = true) :
      TokenCourse c es (c', .ok none)
  | brokenOff {es fs : List Happening} {c₁ c' : Cursor} {why : InputFailure} (skips : c.GoesOver es c₁)
      (begins : BeginsToken c₁.rest) (moves : c₁.Moves fs c') (asks : c₁.AsksInPiece fs) :
      TokenCourse c (es ++ fs) (c', .error (.input why))
  | piece {es fs : List Happening} {c₁ c' : Cursor} {meaning : Except SyntaxError Lexeme} (skips : c.GoesOver es c₁)
      (begins : BeginsToken c₁.rest) (takes : c₁.Takes fs c' meaning) (asks : c₁.AsksInPiece fs) :
      TokenCourse c (es ++ fs) (c', (c₁.itemTaken fs c' meaning).map some)

theorem TokenCourse.moves {answer : Cursor × Except ReadFailure (Option Token)} (h : c.TokenCourse es answer) :
    c.Moves es answer.1 := by
  cases h with
  | unreadable skips | ended skips => exact skips.moves
  | brokenOff skips begins moves => exact skips.moves.append moves
  | piece skips begins takes => exact skips.moves.append takes.moves

theorem nextToken_course (hopen : c.recording.isSome) : ∃ es, c.TokenCourse es c.nextToken := by
  obtain ⟨es, hes⟩ := c.skipAtmosphere_goesOver
  rw [nextToken]
  rcases hskip : c.skipAtmosphere with ⟨c₁, why | _⟩
  · rw [hskip] at hes
    exact ⟨es, .unreadable hes⟩
  · rw [hskip] at hes
    dsimp only at hes ⊢
    obtain hnil | hbegins := rest_skipAtmosphere hskip
    · rw [hnil]
      exact ⟨es, .ended hes (isExhausted_of_skipAtmosphere hskip hnil)⟩
    · obtain ⟨first, after, hr, -⟩ := id hbegins
      obtain ⟨fs, hmoves, hasks, hpiece⟩ := takeToken_course (hes.moves.isOpen ▸ hopen) hr hbegins
      rw [hr]
      dsimp only
      generalize c₁.takeToken first after = answer at hmoves hpiece ⊢
      obtain ⟨c', answer⟩ := answer
      obtain ⟨why, hwhy⟩ | ⟨meaning, htakes, hitem⟩ := hpiece
      · cases hwhy
        exact ⟨es ++ fs, .brokenOff hes hbegins hmoves hasks⟩
      · have hcourse := TokenCourse.piece hes hbegins htakes hasks
        refine ⟨es ++ fs, ?_⟩
        rw [← hitem] at hcourse
        cases answer <;> exact hcourse

theorem Takes.spelling {lexeme : Lexeme} (h : c.Takes es c' (.ok lexeme)) :
    Spelling (taken es) lexeme c'.rest ∧ EndsTaken es := by
  obtain ⟨first, more, hcut, hbegins, hpiece⟩ := h.cut
  obtain ⟨more', hmore, hspells⟩ := firstPiece_fronts (utf8Length c.seen) hbegins
  rw [hpiece] at hmore hspells
  obtain rfl := List.append_cancel_left (hcut.trans hmore)
  refine ⟨hspells, (h.stops.resolve_right ?_).1⟩
  rintro ⟨-, place, hplace⟩
  cases hplace

/-- **A token is read** behind blanks and comments, and ends with the last character consumed. -/
theorem nextToken_token {t : Token} (hopen : c.recording.isSome) (h : c.nextToken = (c', .ok (some t))) :
    ∃ es fs c₁, c.GoesOver es c₁ ∧ BeginsToken c₁.rest ∧ c₁.Moves fs c' ∧ c₁.AsksInPiece fs ∧ EndsTaken fs ∧
      Spelling (taken fs) t.lexeme c'.rest ∧ t.span = ⟨utf8Length c₁.seen, utf8Length (taken fs)⟩ := by
  obtain ⟨_, hcourse⟩ := nextToken_course hopen
  rw [h] at hcourse
  generalize hanswer : Except.ok (some t) = answer at hcourse
  cases hcourse with
  | unreadable | brokenOff | ended => cases hanswer
  | @piece es fs c₁ _ meaning skips begins takes asks =>
    cases meaning with
    | error e => cases hanswer
    | ok lexeme =>
      cases hanswer
      obtain ⟨hspells, hlast⟩ := takes.spelling
      exact ⟨es, fs, c₁, skips, begins, takes.moves, asks, hlast, hspells, rfl⟩

/-- An error of the lexer is reported with the text up to where the cursor stands. -/
theorem nextToken_error {e : SyntaxError} {excerpt : Excerpt} (hopen : c.recording.isSome)
    (h : c.nextToken = (c', .error (.text e excerpt))) :
    excerpt = c'.excerpt ∧ ∃ es fs c₁, c.GoesOver es c₁ ∧ BeginsToken c₁.rest ∧ c₁.AsksInPiece fs ∧
      c₁.Takes fs c' (.error e) := by
  obtain ⟨_, hcourse⟩ := nextToken_course hopen
  rw [h] at hcourse
  generalize hanswer : Except.error (ReadFailure.text e excerpt) = answer at hcourse
  cases hcourse with
  | unreadable | brokenOff | ended => cases hanswer
  | @piece es fs c₁ _ meaning skips begins takes asks =>
    cases meaning with
    | ok lexeme => cases hanswer
    | error e' =>
      cases hanswer
      exact ⟨rfl, es, fs, c₁, skips, begins, asks, takes⟩

/-! ## A whole datum -/

theorem Scans.moves {ts : List Token} (h : c.Scans ts c') (hopen : c.recording.isSome) : ∃ es, c.Moves es c' := by
  induction h with
  | nil => exact ⟨[], .nil⟩
  | cons first _ ih =>
    obtain ⟨es, hes⟩ := nextToken_course hopen
    rw [first] at hes
    obtain ⟨fs, hfs⟩ := ih (hes.moves.isOpen ▸ hopen)
    exact ⟨es ++ fs, hes.moves.append hfs⟩

theorem feedParser_moves (p : Parser) (hopen : c.recording.isSome) : ∃ es, c.Moves es (c.feedParser p).1 := by
  have behind {ts : List Token} {last stop : Cursor} {answer : Except ReadFailure (Option Token)}
      (hscans : c.Scans ts last) (hnext : last.nextToken = (stop, answer)) : ∃ es, c.Moves es stop := by
    obtain ⟨es, hes⟩ := hscans.moves hopen
    obtain ⟨fs, hfs⟩ := nextToken_course (hes.isOpen ▸ hopen)
    rw [hnext] at hfs
    exact ⟨es ++ fs, hes.append hfs.moves⟩
  rcases h : c.feedParser p with ⟨stop, failure | d⟩
  · obtain ⟨q, t, p', e, hscans, -⟩ | ⟨ts, last, p', hscans, -, hend, -⟩ | ⟨ts, last, p', hscans, -, hnext⟩ :=
      feedParser_failed h
    · exact hscans.moves hopen
    · exact behind hscans hend
    · exact behind hscans hnext
  · obtain ⟨ts, hscans, -⟩ := feedParser_done h
    exact hscans.moves hopen

theorem feedParser_excerpt {p : Parser} {e : SyntaxError} {excerpt : Excerpt} (hopen : c.recording.isSome)
    (h : c.feedParser p = (c', .error (.text e excerpt))) : excerpt = c'.excerpt := by
  obtain ⟨q, t, p', e', -, -, -, he⟩ | ⟨ts, last, p', -, -, -, he⟩ | ⟨ts, last, p', hscans, -, hnext⟩ :=
    feedParser_failed h
  · cases he
    rfl
  · cases he
    rfl
  · obtain ⟨es, hes⟩ := hscans.moves hopen
    exact (nextToken_error (hes.isOpen ▸ hopen) hnext).1

/-- **A read goes over blanks and comments, and if it finds a datum, opens it, moves on and closes it.** -/
theorem read_course (c : Cursor) : ∃ es c₁ found, c.GoesOver es c₁ ∧ c.seekDatum false = (c₁, found) ∧
    (found ≠ .ok true ∧ c.read.1 = c₁ ∨
      found = .ok true ∧ ∃ fs c₂ result, c₁.openDatum.feedParser .start = (c₂, result) ∧ c₁.openDatum.Moves fs c₂ ∧
        c.read = (c₂.closeDatum, result.map some)) := by
  obtain ⟨es, hes⟩ := seekDatum_goesOver false c
  obtain ⟨c₁, why, hseek, hread⟩ | ⟨c₁, hseek, hread⟩ | ⟨c₁, hseek, hread⟩ := read_cases c
  · rw [hseek] at hes
    exact ⟨es, c₁, _, hes, hseek, .inl ⟨nofun, by rw [hread]⟩⟩
  · rw [hseek] at hes
    exact ⟨es, c₁, _, hes, hseek, .inl ⟨nofun, by rw [hread]⟩⟩
  · rw [hseek] at hes
    obtain ⟨fs, hfs⟩ := feedParser_moves (c := c₁.openDatum) .start rfl
    exact ⟨es, c₁, _, hes, hseek, .inr ⟨rfl, fs, _, _, rfl, hfs, hread⟩⟩

theorem taken_ne_nil {p : Parser} (hr : c.rest ≠ []) (h : c.Moves es (c.feedParser p).1) : taken es ≠ [] := by
  have hne : es ≠ [] := by
    rintro rfl
    have hsame : c = (c.feedParser p).1 := by
      obtain ⟨course, -⟩ := h
      generalize (c.feedParser p).1 = c' at course ⊢
      cases course
      rfl
    -- The first token leaves less to be read, so the cursor cannot stand where it stood.
    have hless := Nat.lt_of_le_of_lt (pending_feedParser_le_token p c) (pending_nextToken_lt hr)
    rw [← hsame] at hless
    exact Nat.lt_irrefl _ hless
  intro hnil
  have hhead := h.head hr hne
  rw [hnil] at hhead
  exact hr (List.head?_eq_none_iff.1 hhead.symm)

theorem Moves.around (hes : c.Moves es c') (hfs : c'.openDatum.Moves fs c'') :
    c.Course (es ++ .opened c'.lineNumber :: fs ++ [.closed (taken fs)]) c''.closeDatum := by
  have hseen : c''.seen = taken fs := hfs.seen rfl
  have hclose : c''.Course [.closed (taken fs)] c''.closeDatum := hseen ▸ Does.closed.course
  rw [List.append_assoc, List.cons_append]
  exact hes.course.append (.cons .opened (hfs.course.append hclose))

/-- After so many reads, whatever they brought. -/
def afterReads (c : Cursor) : Nat → Cursor
  | 0 => c
  | k + 1 => (c.afterReads k).read.1

end Cursor

end LispSession
