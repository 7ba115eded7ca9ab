import LispSession.Proofs.Conservation
import LispSession.Proofs.Console
/-!
# Texts behind one another

Reading is compositional: of two texts, the second one on a new line, the data and errors of the first one are read, and
then those of the second one, unless the first one ends inside of a datum (`Whole`).  Nothing of the first text, not a
comment without a line end, a blank line or an error in mid-line, changes what is read of the second one, which only
begins some lines later (`Whole.readingsIn`).

A `Reading` is what is found at one place of a text.  Those of a text can be cut off one by one without a cursor
(`readingsIn`), and a cursor finds the same (`Before.readings`); its line is all of a reading that depends on the text
before it.
-/
namespace LispSession

open LispSession.Parser

/-! ## What is read -/

/-- What is found at one place of a text: the line on which a datum begins, its text up to where it ends or is given up,
and the datum, or what is wrong with it. -/
structure Reading where
  line : Nat
  text : String
  result : Except SyntaxError Datum

namespace Reading

/-- What is found, as it is reported: an error with the text of its datum, which is named after its line. -/
def finding (r : Reading) : Except ReadFailure Datum := r.result.mapError (.text · (excerptOf r.line r.text.toList))

/-- The same so many lines later. -/
def later (n : Nat) (r : Reading) : Reading := { r with line := r.line + n }

end Reading

namespace Cursor

/-- The place of the next datum, with what comes of it. -/
def reading (c : Cursor) (result : Except SyntaxError Datum) : Reading :=
  let found := (c.seekDatum false).1
  ⟨found.lineNumber, (found.openDatum.feedParser .start).1.excerpt.text, result⟩

/-- All data and syntax errors of a source with their places, one read after the other.  As in `findings`, reads that
bring nothing are passed over until the source is used up. -/
def readings (c : Cursor) : List Reading :=
  match h : c.read with
  | (c', .ok none) =>
    if he : c'.isExhausted then []
    else
      have : c'.pending < c.pending := (read_nothing h).resolve_left he
      c'.readings
  | (c', .ok (some d)) =>
    have : c'.pending < c.pending := read_consumes h (.inl ⟨d, rfl⟩)
    c.reading (.ok d) :: c'.readings
  | (c', .error (.text error excerpt)) =>
    have : c'.pending < c.pending := read_consumes h (.inr ⟨error, excerpt, rfl⟩)
    c.reading (.error error) :: c'.readings
  | (_, .error (.input _)) => []
termination_by c.pending

theorem readings_of_nothing {c c' : Cursor} (h : c.read = (c', .ok none)) :
    c.readings = if c'.isExhausted then [] else c'.readings := by
  rw [readings]
  split
  · next h' => cases h.symm.trans h'; rfl
  all_goals next h' => cases h.symm.trans h'

theorem readings_of_result {c c' : Cursor} {line : Nat} {result : Except LexicalError Datum}
    (h : c.read = (c', (result.mapError (·.failure line)).map some)) :
    c.readings = c.reading (result.mapError (·.error)) :: c'.readings := by
  rw [readings]
  cases result with
  | ok d =>
    split
    · next h' => cases h.symm.trans h'
    · next h' => cases h.symm.trans h'; rfl
    all_goals next h' => cases h.symm.trans h'
  | error e =>
    split
    · next h' => cases h.symm.trans h'
    · next h' => cases h.symm.trans h'
    · next h' => cases h.symm.trans h'; rfl
    · next h' => cases h.symm.trans h'

/-- The read fails because the text ends inside of a datum: the error says so, or the datum is nested too deep and was
skipped up to the end of the source. -/
def FailsAtEnd : Cursor × Except ReadFailure (Option Datum) → Prop
  | (c, .error (.text error _)) => error.namesEnd c.atEnd = true
  | _ => False

end Cursor

/-! ## What is to be read in a text -/

/-- What comes of a datum that begins on the given line. -/
def Parse.reading (line : Nat) (p : Parse) : Reading := ⟨line, String.ofList p.seen, p.result.mapError (·.error)⟩

/-- What is to be read in a text that begins on the given line. -/
def readingsIn (line : Nat) (text : List Char) : List Reading :=
  match _h : text.drop (gapOf text).length with
  | [] => []
  | first :: after =>
    let begun := line + (gapOf text).count '\n'
    let parse := parseFrom .start [] (first :: after)
    parse.reading begun :: readingsIn (begun + parse.seen.count '\n') parse.ahead
termination_by text.length
decreasing_by
  have hshorter := parseFrom_shorter .start [] (List.cons_ne_nil first after)
  have hlength := congrArg List.length _h
  rw [List.length_drop] at hlength
  omega

theorem readingsIn_gap {text : List Char} (h : gapOf text = text) (line : Nat) : readingsIn line text = [] := by
  rw [readingsIn]
  split
  · rfl
  · next hmore =>
    rw [h, List.drop_length] at hmore
    cases hmore

theorem readingsIn_datum {gap more : List Char} (blank : Atmosphere gap) (begins : BeginsToken more) (line : Nat) :
    readingsIn line (gap ++ more) =
      (parseFrom .start [] more).reading (line + gap.count '\n') ::
        readingsIn (line + gap.count '\n' + (parseFrom .start [] more).seen.count '\n')
          (parseFrom .start [] more).ahead := by
  have hgap := blank.gapOf begins
  rw [readingsIn]
  split
  · next hnone =>
    rw [hgap, List.drop_left] at hnone
    exact absurd hnone begins.ne_nil
  · next hmore =>
    rw [hgap, List.drop_left] at hmore
    rw [hgap, hmore]

/-- A text is blanks and comments, or has a datum behind them and a text behind that. -/
theorem data_induction {P : List Char → Prop} (nothing : ∀ text, gapOf text = text → P text)
    (datum : ∀ gap more, Atmosphere gap → BeginsToken more → P (parseFrom .start [] more).ahead → P (gap ++ more))
    (text : List Char) : P text := by
  obtain ⟨gap, more, rfl, -, blank, begins⟩ | ⟨all, -⟩ := gapOf_spec text
  · have less : (parseFrom .start [] more).ahead.length < (gap ++ more).length := by
      rw [List.length_append]
      exact Nat.lt_add_left _ (parseFrom_shorter .start [] begins.ne_nil)
    exact datum gap more blank begins (data_induction nothing datum _)
  · exact nothing text all
termination_by text.length

/-- The line that a text begins on is the line that what is to be read in it counts from. -/
theorem readingsIn_later (n line : Nat) (text : List Char) :
    readingsIn (line + n) text = (readingsIn line text).map (Reading.later n) := by
  induction text using data_induction generalizing line with
  | nothing text all =>
    rw [readingsIn_gap all, readingsIn_gap all]
    rfl
  | datum gap more blank begins ih =>
    rw [readingsIn_datum blank begins, readingsIn_datum blank begins, List.map_cons, ← ih, Nat.add_right_comm line n,
      Nat.add_right_comm _ n]
    rfl

/-- Blanks and comments in front of a text only count for the lines. -/
theorem Atmosphere.readingsIn {gap : List Char} (h : Atmosphere gap) (line : Nat) (text : List Char) :
    readingsIn line (gap ++ text) = readingsIn (line + gap.count '\n') text := by
  obtain ⟨inner, more, rfl, -, hinner, hbegins⟩ | ⟨hall, -⟩ := gapOf_spec text
  · rw [← List.append_assoc, readingsIn_datum (h.append hinner) hbegins, readingsIn_datum hinner hbegins]
    simp only [List.count_append, Nat.add_assoc]
  · have hgap := h.gapOf_append text
    rw [hall] at hgap
    rw [readingsIn_gap hgap, readingsIn_gap hall]

/-- A text that does not end inside of a datum. -/
inductive Whole : List Char → Prop
  | nothing {text : List Char} (all : gapOf text = text) : Whole text
  | datum {gap more : List Char} (blank : Atmosphere gap) (begins : BeginsToken more)
      (whole : (parseFrom .start [] more).cutShort = false) (later : Whole (parseFrom .start [] more).ahead) :
      Whole (gap ++ more)

/-- **What is to be read in two texts behind one another**: what is to be read in the first one, and what is to be read
in the second one, which begins on a line of its own. -/
theorem Whole.readingsIn {a : List Char} (h : Whole a) (line : Nat) (b : List Char) :
    readingsIn line (a ++ '\n' :: b) = readingsIn line a ++ readingsIn (line + (a ++ ['\n']).count '\n') b := by
  have hnewline : EndsWord ('\n' :: b) := by
    rintro _ ⟨rfl⟩
    decide
  induction h generalizing line with
  | @nothing text all =>
    have hblank : Atmosphere (text ++ ['\n']) := (@atmosphere_of_gapOf text [] (by rwa [List.append_nil])).2
    rw [readingsIn_gap all, List.append_cons, hblank.readingsIn]
    rfl
  | @datum gap more blank begins whole _ ih =>
    have hparse := parseFrom_append whole hnewline
    have hlines : more.count '\n' =
        (parseFrom .start [] more).seen.count '\n' + (parseFrom .start [] more).ahead.count '\n' := by
      rw [← List.count_append, parseFrom_moves, List.nil_append]
    rw [List.append_assoc, readingsIn_datum blank (begins.append _), readingsIn_datum blank begins, hparse,
      List.cons_append, ih]
    simp only [List.count_append, hlines, Nat.add_assoc]
    rfl

namespace Cursor

/-! ## From the text to the reader -/

variable {text : List Char}

theorem InDatum.isOpen {c : Cursor} {line : Nat} {seen ahead : List Char} (h : c.InDatum line seen ahead) :
    c.recording.isSome := by
  obtain ⟨r, hr, -⟩ := h.recording
  rw [hr]
  rfl

theorem InDatum.seen_eq {c : Cursor} {line : Nat} {seen ahead : List Char} (h : c.InDatum line seen ahead) :
    c.seen = seen := by
  obtain ⟨r, hr, hseen, -⟩ := h.recording
  rw [Cursor.seen, hr]
  dsimp only
  rw [hseen, List.reverse_reverse]

theorem reading_eq {c c₁ c₂ : Cursor} {line : Nat} {seen ahead : List Char} {answer : Except ReadFailure Datum}
    (hseek : c.seekDatum false = (c₁, .ok true)) (hparse : c₁.openDatum.feedParser .start = (c₂, answer))
    (hc₂ : c₂.InDatum line seen ahead) (result : Except SyntaxError Datum) :
    c.reading result = ⟨c₁.lineNumber, String.ofList seen, result⟩ := by
  rw [reading, hseek]
  dsimp only
  rw [hparse, text_excerpt, hc₂.seen_eq]

/-- The account of a text goes over the blanks and comments in front of a datum, and over the datum. -/
theorem StandsIn.read_datum {c c₁ c₂ : Cursor} {lines : List (List Char)}
    {consumed gap seen ahead : List Char} {line : Nat} {answer : Except ReadFailure Datum}
    (hstands : c.StandsIn lines consumed) (h : c.Before (gap ++ (seen ++ ahead)))
    (hseek : c.seekDatum false = (c₁, .ok true)) (hc₁ : c₁.Before (seen ++ ahead))
    (hparse : c₁.openDatum.feedParser .start = (c₂, answer)) (hc₂ : c₂.InDatum line seen ahead) :
    c₁.StandsIn lines (consumed ++ gap) ∧ c₂.closeDatum.StandsIn lines (consumed ++ gap ++ seen) := by
  obtain ⟨es, hes⟩ := seekDatum_goesOver false c
  obtain ⟨fs, hfs⟩ := feedParser_moves (c := c₁.openDatum) .start rfl
  rw [hseek] at hes
  rw [hparse] at hfs
  have hstands₁ := hes.moves.course.standsIn hstands
  rw [hes.moves.course.passes hstands h hc₁] at hstands₁
  have hopened : c₁.openDatum.StandsIn lines (consumed ++ gap) := hstands₁.congr rfl rfl rfl
  have hstands₂ := hfs.course.standsIn hopened
  rw [hfs.course.passes hopened hc₁.openDatum.toBefore hc₂.toBefore] at hstands₂
  exact ⟨hstands₁, hstands₂.congr rfl rfl rfl⟩

/-- **A cursor finds what is to be read in the text ahead of it.** -/
theorem Before.readings {c : Cursor} {consumed ahead : List Char} (h : c.Before ahead)
    (hstands : c.StandsIn (textLines text) consumed) :
    c.readings = readingsIn (1 + consumed.count '\n') ahead := by
  induction ahead using data_induction generalizing c consumed with
  | nothing ahead all =>
    obtain ⟨c', hread, -, hend⟩ := h.read_gap all
    rw [readings_of_nothing hread, if_pos hend, readingsIn_gap all]
  | datum gap more blank begins ih =>
    obtain ⟨c₁, c₂, hseek, hc₁, hparse, hc₂, hread⟩ := h.read_datum blank begins
    have hmoves := parseFrom_moves .start [] more
    rw [List.nil_append] at hmoves
    obtain ⟨hstands₁, hstands₂⟩ := hstands.read_datum (hmoves.symm ▸ h) hseek (hmoves.symm ▸ hc₁) hparse hc₂
    have hnumber := hstands₁.lineNumber_eq (seekDatum_found hseek).1
    rw [readings_of_result hread, readingsIn_datum blank begins, reading_eq hseek hparse hc₂, hnumber,
      ih hc₂.closeDatum hstands₂]
    simp only [List.count_append, Nat.add_assoc]
    rfl

/-- What is found is reported with its line and its text. -/
theorem Before.findings {c : Cursor} {ahead : List Char} (h : c.Before ahead) :
    c.findings = c.readings.map Reading.finding := by
  induction ahead using data_induction generalizing c with
  | nothing ahead all =>
    obtain ⟨c', hread, -, hend⟩ := h.read_gap all
    rw [readings_of_nothing hread, if_pos hend, findings_eq, hread, findingsAfter, if_pos hend]
    rfl
  | datum gap more blank begins ih =>
    obtain ⟨c₁, c₂, hseek, hc₁, hparse, hc₂, hread⟩ := h.read_datum blank begins
    rw [readings_of_result hread, findings_eq, hread, List.map_cons, ← ih hc₂.closeDatum, reading_eq hseek hparse hc₂]
    cases hresult : (parseFrom .start [] more).result with
    | ok d => rfl
    | error e =>
      rw [hresult] at hparse
      have hexcerpt : excerptOf c₁.lineNumber e.seen = c₂.excerpt := feedParser_excerpt rfl hparse
      have hreported : c₂.reject e.error = .text e.error (excerptOf c₁.lineNumber (parseFrom .start [] more).seen) :=
        hc₂.reject e.error
      rw [reject, ← hexcerpt] at hreported
      rw [Reading.finding, String.toList_ofList]
      exact congrArg (Except.error · :: c₂.closeDatum.findings) hreported

/-! ## Texts that end inside of a datum -/

theorem namesEnd_atEnd (p : Parser) (offset : Nat) : (p.atEnd offset).namesEnd true = true := by
  cases p with
  | reading stack =>
    cases stack with
    | nil => rfl
    | cons form stack => cases form <;> rfl
  | closing | skipping => rfl

theorem namesEnd_of_false {e : SyntaxError} (h : e.namesEnd false = true) (ended : Bool) : e.namesEnd ended = true := by
  cases e with
  | unterminatedList | danglingQuote | unterminatedString => rfl
  | nestedTooDeep | unexpectedToken | expectedCloseParen | unknownEscape | unknownLiteral => cases h

/-- A parser that the text cuts short says so. -/
theorem InDatum.namesEnd {c : Cursor} {line : Nat} {seen ahead : List Char} (h : c.InDatum line seen ahead) (p : Parser)
    (hcut : (parseFrom p seen ahead).cutShort = true) :
    ∃ e, (parseFrom p seen ahead).result = .error e ∧ e.error.namesEnd (c.feedParser p).1.atEnd = true := by
  fun_induction parseFrom p seen ahead generalizing c with
  | case1 p seen ahead hnone =>
    obtain ⟨c', -, htoken⟩ := h.nextToken_of_none hnone
    have hended := (rest_of_isExhausted (isExhausted_of_nextToken htoken)).2
    rw [feedParser_of_end htoken]
    exact ⟨_, rfl, hended ▸ namesEnd_atEnd p _⟩
  | case2 p seen ahead piece hnext e he => exact ⟨e, rfl, namesEnd_of_false hcut _⟩
  | case3 | case4 => cases hcut
  | case5 p seen ahead piece hnext t ht p' hpush ih =>
    obtain ⟨c₁, hc₁, hfed⟩ := h.feedParser_of_some hnext ht p
    rw [hfed, hpush]
    exact ih hc₁ hcut

theorem afterReads_succ (c : Cursor) (k : Nat) : c.afterReads (k + 1) = c.read.1.afterReads k := by
  induction k with
  | zero => rfl
  | succ k ih => rw [afterReads, ih, afterReads]

/-- **If no read fails at the end of the text, the text does not end inside of a datum.** -/
theorem Before.whole {c : Cursor} {ahead : List Char} (h : c.Before ahead)
    (hreads : ∀ k, ¬FailsAtEnd (c.afterReads k).read) :
    Whole ahead := by
  induction ahead using data_induction generalizing c with
  | nothing ahead all => exact .nothing all
  | datum gap more blank begins ih =>
    obtain ⟨c₁, c₂, hseek, hc₁, hparse, hc₂, hread⟩ := h.read_datum blank begins
    have hwhole : (parseFrom .start [] more).cutShort = false := by
      by_contra hcut
      obtain ⟨e, he, hnames⟩ := hc₁.openDatum.namesEnd .start (by simpa using hcut)
      rw [hparse] at hnames
      rw [he] at hread
      exact hreads 0 (show FailsAtEnd c.read from hread ▸ hnames)
    refine .datum blank begins hwhole (ih hc₂.closeDatum fun k => ?_)
    have hlater := hreads (k + 1)
    rwa [afterReads_succ, hread] at hlater

theorem push_namesEnd {p : Parser} {t : Token} {e : SyntaxError} (h : p.push t = .failed e) :
    e.namesEnd false = false := by
  cases p with
  | reading stack =>
    obtain ⟨d, stack', hd⟩ | ⟨stack', hmore⟩ | ⟨-, hunexpected⟩ | ⟨-, -, n, hgave⟩ := push_reading_cases stack t
    · exact absurd (hd.symm.trans h) (deliver_ne_failed _ _ _)
    · cases hmore.symm.trans h
    · cases hunexpected.symm.trans h
      rfl
    · have he := hgave.symm.trans h
      cases n with
      | zero => cases he; rfl
      | succ n => cases he
  | closing opener items tail stack =>
    obtain ⟨d, stack', hd⟩ | hexpected := push_closing_cases opener items tail stack t
    · exact absurd (hd.symm.trans h) (deliver_ne_failed _ _ _)
    · cases hexpected.symm.trans h
      rfl
  | skipping place n =>
    obtain ⟨n', hmore⟩ | hfailed := push_skipping_cases place n t
    · cases hmore.symm.trans h
    · cases hfailed.symm.trans h
      rfl

theorem parseFrom_namesEnd {p : Parser} {seen ahead : List Char} {e : LexicalError}
    (h : (parseFrom p seen ahead).cutShort = false) (he : (parseFrom p seen ahead).result = .error e) :
    e.error.namesEnd false = false := by
  fun_induction parseFrom p seen ahead with
  | case1 => cases h
  | case2 => cases he; exact h
  | case3 => cases he
  | case4 _ _ _ _ _ _ _ _ hpush => cases he; exact push_namesEnd hpush
  | case5 _ _ _ _ _ _ _ _ _ ih => exact ih h he

/-- A token leaves a source that has not ended. -/
theorem InDatum.goesOn_of_some {c : Cursor} {line : Nat} {seen ahead : List Char} (h : c.InDatum line seen ahead)
    (hused : c.atEnd = true → c.rest = []) {piece : Piece} {t : Token} (hnext : nextPiece? seen ahead = some piece)
    (ht : piece.item = .ok t) (p : Parser) :
    ∃ c' : Cursor, c'.InDatum line piece.seen piece.ahead ∧ c.feedParser p = c'.settle (p.push t) ∧
      c'.atEnd = false := by
  obtain ⟨c', hc', htoken⟩ := h.nextToken_of_some hnext
  rw [ht] at htoken
  obtain ⟨es, fs, c₁, hes, -, hfs, -, hlast, -⟩ := nextToken_token h.isOpen htoken
  exact ⟨c', hc', feedParser_of_token htoken p, (hes.moves.append hfs).course.goesOn (hlast.behind es) hused⟩

/-- So does a parser that is done before the text ends. -/
theorem InDatum.goesOn {c : Cursor} {line : Nat} {seen ahead : List Char} (h : c.InDatum line seen ahead)
    (hused : c.atEnd = true → c.rest = []) (p : Parser) (hwhole : (parseFrom p seen ahead).cutShort = false) :
    (c.feedParser p).1.atEnd = false := by
  fun_induction parseFrom p seen ahead generalizing c with
  | case1 => cases hwhole
  | case2 p seen ahead piece hnext e he =>
    obtain ⟨c', hc', htoken⟩ := h.nextToken_of_some hnext
    rw [he] at htoken
    obtain ⟨-, es, fs, c₁, hes, -, -, htakes⟩ := nextToken_error h.isOpen htoken
    rw [feedParser_of_error htoken]
    obtain ⟨hlast, -⟩ | ⟨-, place, hplace⟩ := htakes.stops
    · exact (hes.moves.append htakes.moves).course.goesOn (hlast.behind es) hused
    · rw [Except.error.inj hplace] at hwhole
      cases hwhole
  | case3 p seen ahead piece hnext t ht d hpush | case4 p seen ahead piece hnext t ht d hpush =>
    obtain ⟨c', -, hfed, hgoesOn⟩ := h.goesOn_of_some hused hnext ht p
    rw [hfed, hpush]
    exact hgoesOn
  | case5 p seen ahead piece hnext t ht p' hpush ih =>
    obtain ⟨c', hc', hfed, hgoesOn⟩ := h.goesOn_of_some hused hnext ht p
    rw [hfed, hpush]
    exact ih hc' (fun hend => by cases hgoesOn.symm.trans hend) hwhole

/-- A datum that the text does not cut short is read, or fails for another reason. -/
theorem Before.read_whole {c : Cursor} {gap more : List Char} (h : c.Before (gap ++ more))
    (hused : c.atEnd = true → c.rest = []) (blank : Atmosphere gap) (begins : BeginsToken more)
    (whole : (parseFrom .start [] more).cutShort = false) : ¬FailsAtEnd c.read := by
  obtain ⟨c₁, c₂, hseek, hc₁, hparse, hc₂, hread⟩ := h.read_datum blank begins
  obtain ⟨es, hes⟩ := seekDatum_goesOver false c
  rw [hseek] at hes
  have hgoesOn := hc₁.openDatum.goesOn (hes.moves.course.keeps Does.used hused) .start whole
  rw [hparse] at hgoesOn
  rw [hread]
  cases hresult : (parseFrom .start [] more).result with
  | ok d => exact id
  | error e =>
    show ¬e.error.namesEnd c₂.atEnd = true
    rw [hgoesOn, parseFrom_namesEnd whole hresult]
    exact Bool.false_ne_true

/-- **No read fails at the end of a text that does not end inside of a datum.** -/
theorem Before.reads_whole {c : Cursor} {ahead : List Char} (hahead : Whole ahead) (h : c.Before ahead)
    (hused : c.atEnd = true → c.rest = []) (k : Nat) : ¬FailsAtEnd (c.afterReads k).read := by
  induction k generalizing c ahead with
  | zero =>
    cases hahead with
    | nothing all =>
      obtain ⟨c', hread, -⟩ := h.read_gap all
      rw [afterReads, hread]
      exact id
    | datum blank begins whole => exact h.read_whole hused blank begins whole
  | succ k ih =>
    rw [afterReads_succ]
    obtain ⟨block, hcourse, -⟩ := read_block [] h
    have hused' := hcourse.keeps Does.used hused
    cases hahead with
    | nothing all =>
      obtain ⟨c', hread, hc', -⟩ := h.read_gap all
      rw [hread] at hused' ⊢
      exact ih (.nothing gapOf_nil) hc' hused'
    | datum blank begins whole later =>
      obtain ⟨c₁, c₂, -, -, -, hc₂, hread⟩ := h.read_datum blank begins
      rw [hread] at hused' ⊢
      exact ih later hc₂.closeDatum hused'

theorem whole_iff (text : String) : Whole text.toList ↔ ∀ k, ¬FailsAtEnd ((start (.code text)).afterReads k).read :=
  ⟨fun h => (before_start text).reads_whole h nofun, (before_start text).whole⟩

theorem readings_start (text : String) : (start (.code text)).readings = readingsIn 1 text.toList :=
  (before_start text).readings (standsIn_start text)

end Cursor

/-- **Reading is compositional.**  If no read of a text fails because the text ends inside of a datum, then what is read
of it with another text on the lines behind it is what is read of the one text and then of the other: the same values,
errors, labels and texts, only on lines that are counted on.  What is read is reported with its line and text and
nothing else. -/
theorem reading_is_compositional (a b : String)
    (ha : ∀ k, ¬Cursor.FailsAtEnd ((Cursor.start (.code a)).afterReads k).read) :
    (Cursor.start (.code (a ++ "\n" ++ b))).readings =
      (Cursor.start (.code a)).readings ++
        (Cursor.start (.code b)).readings.map (Reading.later (textLines (a ++ "\n").toList).length) ∧
    ∀ text : String,
      (Cursor.start (.code text)).findings = (Cursor.start (.code text)).readings.map Reading.finding := by
  have hwhole := (Cursor.whole_iff a).2 ha
  have htext : (a ++ "\n" ++ b).toList = a.toList ++ '\n' :: b.toList := by simp
  have hlines : (textLines (a ++ "\n").toList).length = (a.toList ++ ['\n']).count '\n' := by
    rw [← length_textLines, String.toList_append]
    rfl
  refine ⟨?_, fun text => (Cursor.before_start text).findings⟩
  rw [Cursor.readings_start, Cursor.readings_start, Cursor.readings_start, htext, hwhole.readingsIn, hlines,
    readingsIn_later]

/-- An error in mid-line, a string over a line end and a comment without one; behind them a blank line, a quote and an
open list. -/
theorem comment_and_error_leave_no_trace :
    (∀ k, ¬Cursor.FailsAtEnd ((Cursor.start (.code ") \"x\ny\" ; note")).afterReads k).read) ∧
    (Cursor.start (.code ") \"x\ny\" ; note\n\n'c (d")).readings =
      [⟨1, ")", .error (.unexpectedToken .closeParen ⟨0, 1⟩)⟩, ⟨1, "\"x\ny\"", .ok (.str "x\ny")⟩,
        ⟨4, "'c", .ok (.pair (.sym "quote") (.pair (.sym "c") .nil))⟩, ⟨4, "(d", .error (.unterminatedList ⟨0, 1⟩)⟩] ∧
    (Cursor.start (.code (") \"x\ny\" ; note" ++ "\n" ++ "\n'c (d"))).readings =
      (Cursor.start (.code ") \"x\ny\" ; note")).readings ++
        (Cursor.start (.code "\n'c (d")).readings.map
          (Reading.later (textLines (") \"x\ny\" ; note" ++ "\n").toList).length) := by
  have hfirst : nextPiece? [] ") \"x\ny\" ; note".toList =
      some ⟨.ok ⟨.closeParen, 0, 1⟩, [')'], [' '] ++ "\"x\ny\" ; note".toList⟩ := by cbv
  have hsecond : nextPiece? [] "\"x\ny\" ; note".toList =
      some ⟨.ok ⟨.str "x\ny", 0, 5⟩, "\"x\ny\"".toList, " ; note".toList⟩ := by cbv
  have hparen : parseFrom .start [] ") \"x\ny\" ; note".toList =
      ⟨.error ⟨.unexpectedToken .closeParen ⟨0, 1⟩, [')']⟩, [')'], [' '] ++ "\"x\ny\" ; note".toList, false⟩ :=
    parseFrom_of_token hfirst rfl .start
  have hstring : parseFrom .start [] "\"x\ny\" ; note".toList =
      ⟨.ok (.str "x\ny"), "\"x\ny\"".toList, " ; note".toList, false⟩ :=
    parseFrom_of_token hsecond rfl .start
  have hnote : Whole " ; note".toList := .nothing (by cbv)
  have hbehind : Whole ([' '] ++ "\"x\ny\" ; note".toList) :=
    .datum (.blank (by decide) .nil) ⟨'"', _, rfl, by decide, by decide⟩ (by rw [hstring])
      (by rw [hstring]; exact hnote)
  have hwhole : Whole ([] ++ ") \"x\ny\" ; note".toList) :=
    .datum .nil ⟨')', _, rfl, by decide, by decide⟩ (by rw [hparen]) (by rw [hparen]; exact hbehind)
  have hreads := (Cursor.whole_iff ") \"x\ny\" ; note").1 hwhole
  exact ⟨hreads, by with_unfolding_all rfl, (reading_is_compositional ") \"x\ny\" ; note" "\n'c (d" hreads).1⟩

end LispSession
