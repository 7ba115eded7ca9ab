import LispSession.Proofs.Incomplete
import LispSession.Proofs.Labels
/-!
# A console is asked only for what is missing

At a console every line has its line end, so whatever was read of a line can be lexed as it stands.  While a datum is
open its text is the tokens read so far and nothing else (`Cursor.Lexed`), and a line is asked for behind them or inside
a string; as the parser wishes for more, the text is incomplete then (`Incomplete`).  Before a datum is found only
blanks and comments are consumed, and one line is asked for at most (`Search`).
-/
namespace LispSession

open LispSession.Parser

/-- A line was asked for behind these tokens, or in a string behind them. -/
def AskedBehind (ts : List Token) (s : List Char) : Prop :=
  ts ≠ [] ∧ lex s = ts.map .ok ∨ ∃ place, lex s = ts.map .ok ++ [.error ⟨.unterminatedString place, s⟩]

theorem AskedBehind.incomplete {ts : List Token} {s : List Char} {p : Parser} (h : AskedBehind ts s)
    (hafter : (Step.more .start).after ts = some (.more p)) : Incomplete s := by
  obtain ⟨hne, hlex⟩ | ⟨place, hlex⟩ := h
  · exact .tokens hlex (awaits hne hafter)
  · exact .string hlex fun hne => awaits hne hafter

/-- A parser that answers a row of tokens was not done before its end. -/
theorem after_front {p : Parser} {s : Parser.Step} {vs ws : List Token} (h : (Step.more p).after (vs ++ ws) = some s)
    (hws : ws ≠ []) :
    ∃ p', (Step.more p).after vs = some (.more p') := by
  rw [Step.after_append] at h
  obtain ⟨s', hvs, hs'⟩ := Option.bind_eq_some_iff.1 h
  obtain ⟨w, ws, rfl⟩ := List.exists_cons_of_ne_nil hws
  cases s' with
  | more p' => exact ⟨p', hvs⟩
  | done | failed => cases hs'

namespace Cursor

variable {c c' c₁ : Cursor} {es fs : List Happening} {ts us : List Token}

/-! ## The text of the open datum -/

/-- The text recorded so far is these tokens, of which the last one ends it; so it is if more follows that starts like
the rest of the line, or ends words. -/
structure Lexed (c : Cursor) (ts : List Token) : Prop where
  rest : c.rest ≠ []
  begins : ts = [] → BeginsToken c.rest
  pieces : ∀ more, EndsWord more ∨ more.head? = c.rest.head? → Pieces [] (c.seen ++ more) ts c.seen more

theorem lexed_openDatum (h : BeginsToken c.rest) : c.openDatum.Lexed [] := by
  refine ⟨?_, fun _ => h, fun more _ => .nil⟩
  obtain ⟨first, after, hr, -⟩ := h
  exact hr ▸ List.cons_ne_nil first after

theorem Lexed.lex_eq (h : c.Lexed ts) {more : List Char} (hmore : EndsWord more) :
    lex (c.seen ++ more) = ts.map .ok ++ lexFrom c.seen more := (h.pieces more (.inl hmore)).lexed

/-- There is nothing to go over in front of a token. -/
theorem GoesOver.eq_nil (h : c.GoesOver es c') (hw : c.WholeLines) (hbegins : BeginsToken c.rest) : es = [] := by
  by_contra hne
  obtain ⟨first, after, hr, hblank, hcomment⟩ := hbegins
  have hhead := h.moves.head (by rw [hr]; exact List.cons_ne_nil _ _) hne
  have hgap := h.gap hw
  rw [hr] at hhead
  generalize taken es = gap at hhead hgap
  cases hgap with
  | nil => cases hhead
  | blank hc =>
    cases hhead
    exact absurd hc (by rw [hblank]; decide)
  | comment =>
    cases hhead
    exact hcomment rfl

theorem Lexed.askedBehind_gap (hc : c.Lexed ts) (hw : c.WholeLines) (hopen : c.recording.isSome)
    (h : c.GoesOver es c') :
    ∀ s ∈ askedAt es, AskedBehind ts s := by
  intro s hs
  obtain ⟨gap, rfl, hgap⟩ := h.asks hw hopen s hs
  refine .inl ⟨fun hnil => ?_, ?_⟩
  · rw [h.eq_nil hw (hc.begins hnil)] at hs
    cases hs
  · have hends : EndsWord (gap ++ []) := hgap.endsWord nofun
    rw [List.append_nil] at hends
    rw [hc.lex_eq hends, lexFrom_atmosphere hgap, List.append_nil]

theorem Lexed.askedBehind (hc : c.Lexed ts) (hw : c.WholeLines) (hopen : c.recording.isSome) (h : c.GoesOver es c₁)
    (hasks : c₁.AsksInPiece fs) : ∀ s ∈ askedAt (es ++ fs), AskedBehind ts s := by
  intro s hs
  obtain hs | hs := mem_askedAt_append.1 hs
  · exact hc.askedBehind_gap hw hopen h s hs
  · obtain ⟨body, rfl, hbody⟩ := hasks s hs
    have hgap := h.gap hw
    have hends : EndsWord (taken es ++ '"' :: body) := hgap.endsWord (by rintro _ ⟨rfl⟩; decide)
    refine .inr ⟨⟨utf8Length (c.seen ++ taken es), utf8Length ('"' :: body)⟩, ?_⟩
    rw [h.moves.seen hopen, List.append_assoc, hc.lex_eq hends, lexFrom_string hgap hbody, List.append_assoc]

/-- **Whenever a token is looked for, lines are asked for behind the tokens so far** or in a string behind them. -/
theorem Lexed.asks {answer : Cursor × Except ReadFailure (Option Token)} (hc : c.Lexed ts) (hw : c.WholeLines)
    (hopen : c.recording.isSome) (h : c.TokenCourse es answer) : ∀ s ∈ askedAt es, AskedBehind ts s := by
  cases h with
  | unreadable skips | ended skips => exact hc.askedBehind_gap hw hopen skips
  | brokenOff skips _ _ asks | piece skips _ _ asks => exact hc.askedBehind hw hopen skips asks

/-- **One more token.** -/
theorem Lexed.nextToken {t : Token} (hc : c.Lexed ts) (hw : c.WholeLines) (hopen : c.recording.isSome)
    (h : c.nextToken = (c', .ok (some t))) :
    ∃ es, c.Moves es c' ∧ EndsTaken es ∧ (∀ s ∈ askedAt es, AskedBehind ts s) ∧ c'.Lexed (ts ++ [t]) := by
  obtain ⟨es, fs, c₁, hskips, hbegins, hfs, hasks, hlast, hspells, hspan⟩ := nextToken_token hopen h
  have hmoves := hskips.moves.append hfs
  have hends := hlast.behind es
  refine ⟨es ++ fs, hmoves, hends, hc.askedBehind hw hopen hskips hasks, ?_, fun hnil => absurd hnil (by simp),
    fun more hmore => ?_⟩
  · -- The last character of a token is no line end, so it cannot be the last one of a whole line.
    intro hr
    obtain ⟨front, ch, rfl⟩ := hlast
    have hnewline := WholeLines.last_taken (hskips.moves.course.keeps Does.wholeLines hw) hfs.course rfl hr
    refine hspells.last_ne_newline ?_
    rw [taken_append, hnewline]
    exact List.getLast?_concat
  · -- What is added begins like the rest of the line did, so the tokens before it stay as they are.
    have hne : taken fs ≠ [] := hspells.ne_nil
    have hhead : (taken es ++ (taken fs ++ more)).head? = c.rest.head? := by
      obtain ⟨front, ch, hfront⟩ := id hends
      rw [← hmoves.head hc.rest (by rw [hfront]; simp), ← List.append_assoc, ← taken_append,
        List.head?_append_of_ne_nil]
      rw [taken_append]
      exact List.append_ne_nil_of_right_ne_nil _ hne
    have hnext := nextPiece?_of_spelling (hskips.gap hw) (hspells.follow hmore) c.seen
    have hseen : c'.seen = c.seen ++ taken es ++ taken fs := by
      rw [hfs.seen (hskips.moves.isOpen ▸ hopen), hskips.moves.seen hopen]
    have hlexeme : (⟨t.lexeme, utf8Length (c.seen ++ taken es), utf8Length (taken fs)⟩ : Token) = t := by
      rw [← hskips.moves.seen hopen, ← hspan]
    rw [hlexeme, ← hseen] at hnext
    rw [hseen, List.append_assoc, List.append_assoc, ← hseen]
    exact (hc.pieces _ (.inr hhead)).trans (.cons hnext rfl .nil)

/-- **A row of tokens**: lines are asked for only in the midst of it. -/
theorem Lexed.scans (hc : c.Lexed ts) (hw : c.WholeLines) (hopen : c.recording.isSome) (h : c.Scans us c') :
    ∃ es, c.Moves es c' ∧ (us = [] ∧ es = [] ∨ EndsTaken es) ∧ c'.Lexed (ts ++ us) ∧
      ∀ s ∈ askedAt es, ∃ vs ws, us = vs ++ ws ∧ ws ≠ [] ∧ AskedBehind (ts ++ vs) s := by
  induction h generalizing ts with
  | nil => exact ⟨[], .nil, .inl ⟨rfl, rfl⟩, by rwa [List.append_nil], nofun⟩
  | @cons c c₁ c' t us first _ ih =>
    obtain ⟨es, hes, hlast, hasks, hc₁⟩ := hc.nextToken hw hopen first
    obtain ⟨fs, hfs, hlast', hc', hasks'⟩ := ih hc₁ (hes.course.keeps Does.wholeLines hw) (hes.isOpen ▸ hopen)
    refine ⟨es ++ fs, hes.append hfs, .inr ?_, by rwa [List.append_assoc] at hc', fun s hs => ?_⟩
    · obtain ⟨-, rfl⟩ | hlast' := hlast'
      · rwa [List.append_nil]
      · exact hlast'.behind es
    · obtain hs | hs := mem_askedAt_append.1 hs
      · exact ⟨[], t :: us, rfl, List.cons_ne_nil _ _, by rw [List.append_nil]; exact hasks s hs⟩
      · obtain ⟨vs, ws, rfl, hws, hbehind⟩ := hasks' s hs
        exact ⟨t :: vs, ws, rfl, hws, by rwa [List.append_assoc] at hbehind⟩

end Cursor

/-! ## How a datum ends -/

/-- The errors of the lexer. -/
def SyntaxError.isLexical : SyntaxError → Bool
  | .unterminatedString _ | .unknownEscape _ _ | .unknownLiteral _ _ => true
  | _ => false

theorem isLexical_of_firstPiece {offset : Nat} {first : Char} {after piece : List Char} {e : SyntaxError}
    (h : firstPiece offset first after = (piece, .error e)) : e.isLexical = true := by
  unfold firstPiece at h
  split at h
  · cases h
  · cases h
  · cases h
  · rw [stringPiece] at h
    cases hended : (quoted after).2 with
    | holds text =>
      rw [hended] at h
      cases h
    | unknownEscape ch =>
      rw [hended] at h
      cases h
      rfl
    | missing =>
      rw [hended] at h
      cases h
      rfl
  · rw [wordPiece] at h
    split at h
    · cases h
    · cases h
      rfl

/-- A refused token is labelled, unless it is beyond the limit. -/
theorem push_failed {p : Parser} {t : Token} {e : SyntaxError} (h : p.push t = .failed e) :
    (∃ remark, (t.span, remark) ∈ e.labels) ∨ ∃ place, e = .nestedTooDeep place := by
  cases p with
  | reading stack =>
    obtain ⟨d, stack', hd⟩ | ⟨stack', hmore⟩ | ⟨-, hunexpected⟩ | ⟨-, -, n, hgave⟩ := push_reading_cases stack t
    · exact absurd (hd.symm.trans h) (deliver_ne_failed _ _ _)
    · cases hmore.symm.trans h
    · cases hunexpected.symm.trans h
      exact .inl ⟨_, List.mem_singleton_self _⟩
    · have he := hgave.symm.trans h
      cases n with
      | zero =>
        cases he
        exact .inr ⟨_, rfl⟩
      | succ n => cases he
  | closing opener items tail stack =>
    obtain ⟨d, stack', hd⟩ | hexpected := push_closing_cases opener items tail stack t
    · exact absurd (hd.symm.trans h) (deliver_ne_failed _ _ _)
    · cases hexpected.symm.trans h
      exact .inl ⟨_, List.mem_cons_of_mem _ (List.mem_singleton_self _)⟩
  | skipping place n =>
    obtain ⟨n', hmore⟩ | hfailed := push_skipping_cases place n t
    · cases hmore.symm.trans h
    · cases hfailed.symm.trans h
      exact .inr ⟨place, rfl⟩

/-- How the reading of a datum ends: with its last token, at the character or token that is wrong, at the end of the
source, or somewhere beyond the limit.  In the first two cases that is the last character consumed. -/
inductive DatumEnds (fs : List Happening) (c' : Cursor) : Except ReadFailure Datum → Prop
  | done {d : Datum} {ts : List Token} {n : Nat} (last : EndsTaken fs) (lexed : lex (taken fs) = ts.map .ok)
      (denotes : Denotes ts d n) (limit : n ≤ 256) : DatumEnds fs c' (.ok d)
  | wrong {e : SyntaxError} {excerpt : Excerpt} {place : Span} {remark : String} {piece : List Char}
      (last : EndsTaken fs) (label : (place, remark) ∈ e.labels) (under : UnderEnd (taken fs) place piece) :
      DatumEnds fs c' (.error (.text e excerpt))
  | sourceEnded {e : SyntaxError} {excerpt : Excerpt} (exhausted : c'.isExhausted = true)
      (missing : (∃ opener, e = .unterminatedList opener) ∨ (∃ place, e = .danglingQuote place) ∨
        ∃ place, e = .unterminatedString place) :
      DatumEnds fs c' (.error (.text e excerpt))
  | tooDeep {place : Span} {excerpt : Excerpt} : DatumEnds fs c' (.error (.text (.nestedTooDeep place) excerpt))
  | unreadable {why : InputFailure} : DatumEnds fs c' (.error (.input why))

theorem SyntaxError.PointsAt.underEnd {text more : List Char} {e : SyntaxError} (h : e.PointsAt text more)
    (he : e.isLexical = true) :
    ∃ place remark piece, (place, remark) ∈ e.labels ∧ UnderEnd text place piece := by
  cases e with
  | unterminatedString place =>
    obtain ⟨body, hplace, -⟩ := h
    exact ⟨place, _, _, List.mem_singleton_self _, hplace⟩
  | unknownEscape ch place => exact ⟨place, _, _, List.mem_singleton_self _, h.1⟩
  | unknownLiteral literal place => exact ⟨place, _, _, List.mem_singleton_self _, h.1⟩
  | unexpectedToken | expectedCloseParen | unterminatedList | danglingQuote | nestedTooDeep => cases he

/-- What is missing where the source ends too early. -/
theorem atEnd_cases (p : Parser) (offset : Nat) :
    (∃ opener, p.atEnd offset = .unterminatedList opener) ∨ (∃ place, p.atEnd offset = .danglingQuote place) ∨
    ∃ place, p.atEnd offset = .nestedTooDeep place := by
  cases p with
  | reading stack =>
    cases stack with
    | nil => exact .inl ⟨_, rfl⟩
    | cons form stack =>
      cases form with
      | list | tail => exact .inl ⟨_, rfl⟩
      | quote => exact .inr (.inl ⟨_, rfl⟩)
  | closing => exact .inl ⟨_, rfl⟩
  | skipping => exact .inr (.inr ⟨_, rfl⟩)

namespace Cursor

variable {c c' last : Cursor} {ts : List Token}

/-- A row of tokens that a parser answers: in the midst of it the parser wishes for more. -/
theorem Scans.asks {s : Parser.Step} (hw : c.WholeLines) (hbegins : BeginsToken c.rest) (h : c.openDatum.Scans ts last)
    (hafter : (Step.more .start).after ts = some s) :
    ∃ es, c.openDatum.Moves es last ∧ (ts = [] ∧ es = [] ∨ EndsTaken es) ∧ last.Lexed ts ∧
      ∀ s ∈ askedAt es, Incomplete s := by
  have hw₀ : c.openDatum.WholeLines := ⟨hw.rest, hw.lines⟩
  obtain ⟨es, hes, hlast, hlexed, hasks⟩ := (lexed_openDatum hbegins).scans hw₀ rfl h
  refine ⟨es, hes, hlast, hlexed, fun s hs => ?_⟩
  obtain ⟨vs, ws, rfl, hws, hbehind⟩ := hasks s hs
  obtain ⟨p, hp⟩ := after_front hafter hws
  exact hbehind.incomplete hp

theorem Scans.asks_more {p : Parser} (hw : c.WholeLines) (hbegins : BeginsToken c.rest) (h : c.openDatum.Scans ts last)
    (hafter : (Step.more .start).after ts = some (.more p)) : ∃ es, c.openDatum.Moves es last ∧
      ∀ {fs : List Happening} {answer : Cursor × Except ReadFailure (Option Token)}, last.TokenCourse fs answer →
        c.openDatum.Moves (es ++ fs) answer.1 ∧ ∀ s ∈ askedAt (es ++ fs), Incomplete s := by
  obtain ⟨es, hes, -, hlexed, hasks⟩ := h.asks hw hbegins hafter
  refine ⟨es, hes, fun {fs answer} hfs => ⟨hes.append hfs.moves, fun s hs => ?_⟩⟩
  have hw' : last.WholeLines := hes.course.keeps Does.wholeLines ⟨hw.rest, hw.lines⟩
  obtain hs | hs := mem_askedAt_append.1 hs
  · exact hasks s hs
  · exact (hlexed.asks hw' (hes.isOpen ▸ rfl) hfs s hs).incomplete hafter

theorem datumEnds_done {d : Datum} (hw : c.WholeLines) (hbegins : BeginsToken c.rest) (h : c.openDatum.Scans ts c')
    (hafter : (Step.more .start).after ts = some (.done d)) :
    ∃ fs, c.openDatum.Moves fs c' ∧ (∀ s ∈ askedAt fs, Incomplete s) ∧ DatumEnds fs c' (.ok d) := by
  obtain ⟨fs, hfs, hlast, hlexed, hasks⟩ := h.asks hw hbegins hafter
  obtain ⟨n, hn, hdenotes⟩ := after_explained (.reading .nil) hafter
  have htext : c'.seen = taken fs := hfs.seen rfl
  have hlex := hlexed.lex_eq (show EndsWord [] from nofun)
  rw [lexFrom_atmosphere .nil, List.append_nil, List.append_nil, htext] at hlex
  refine ⟨fs, hfs, hasks, .done ?_ hlex hdenotes hn⟩
  obtain ⟨rfl, -⟩ | hlast := hlast
  · cases hafter
  · exact hlast

theorem datumEnds_refused {t : Token} {p : Parser} {e : SyntaxError} (hw : c.WholeLines) (hbegins : BeginsToken c.rest)
    (h : c.openDatum.Scans (ts ++ [t]) c') (hafter : (Step.more .start).after ts = some (.more p))
    (hpush : p.push t = .failed e) :
    ∃ fs, c.openDatum.Moves fs c' ∧ (∀ s ∈ askedAt fs, Incomplete s) ∧ DatumEnds fs c' (.error (c'.reject e)) := by
  have hafter' : (Step.more .start).after (ts ++ [t]) = some (.failed e) := by
    rw [Step.after_append_of [t] hafter, Step.after, hpush]
    rfl
  obtain ⟨fs, hfs, hlast, -, hasks⟩ := h.asks hw hbegins hafter'
  refine ⟨fs, hfs, hasks, ?_⟩
  obtain ⟨remark, hlabel⟩ | ⟨place, rfl⟩ := push_failed hpush
  · obtain ⟨piece, hunder, -⟩ := h.underEnd rfl
    have htext : c'.seen = taken fs := hfs.seen rfl
    rw [htext] at hunder
    obtain ⟨hnil, -⟩ | hlast := hlast
    · cases List.append_ne_nil_of_right_ne_nil ts (List.cons_ne_nil t []) hnil
    · exact .wrong hlast hlabel hunder
  · exact .tooDeep

theorem datumEnds_sourceEnded {p : Parser} (hw : c.WholeLines) (hbegins : BeginsToken c.rest)
    (h : c.openDatum.Scans ts last) (hafter : (Step.more .start).after ts = some (.more p))
    (hend : last.nextToken = (c', .ok none)) :
    ∃ fs, c.openDatum.Moves fs c' ∧ (∀ s ∈ askedAt fs, Incomplete s) ∧
      DatumEnds fs c' (.error (c'.reject (p.atEnd c'.offset))) := by
  obtain ⟨es, hes, hmore⟩ := h.asks_more hw hbegins hafter
  obtain ⟨fs, hfs⟩ := nextToken_course (c := last) (hes.isOpen ▸ rfl)
  rw [hend] at hfs
  obtain ⟨hmoves, hasks⟩ := hmore hfs
  refine ⟨es ++ fs, hmoves, hasks, ?_⟩
  have hexhausted := isExhausted_of_nextToken hend
  obtain hlist | hquote | ⟨place, hdeep⟩ := atEnd_cases p c'.offset
  · exact .sourceEnded hexhausted (.inl hlist)
  · exact .sourceEnded hexhausted (.inr (.inl hquote))
  · rw [hdeep]
    exact .tooDeep

theorem datumEnds_lexical {p : Parser} {failure : ReadFailure} (hw : c.WholeLines) (hbegins : BeginsToken c.rest)
    (h : c.openDatum.Scans ts last) (hafter : (Step.more .start).after ts = some (.more p))
    (hnext : last.nextToken = (c', .error failure)) :
    ∃ fs, c.openDatum.Moves fs c' ∧ (∀ s ∈ askedAt fs, Incomplete s) ∧ DatumEnds fs c' (.error failure) := by
  obtain ⟨es, hes, hmore⟩ := h.asks_more hw hbegins hafter
  have hopen : last.recording.isSome := hes.isOpen ▸ rfl
  cases failure with
  | input why =>
    obtain ⟨fs, hfs⟩ := nextToken_course hopen
    rw [hnext] at hfs
    obtain ⟨hmoves, hasks⟩ := hmore hfs
    exact ⟨es ++ fs, hmoves, hasks, .unreadable⟩
  | text e excerpt =>
    obtain ⟨-, skip, fs, c₁, hskips, hbegins', hasksIn, htakes⟩ := nextToken_error hopen hnext
    obtain ⟨hmoves, hasks⟩ := hmore (.piece hskips hbegins' htakes hasksIn)
    refine ⟨es ++ (skip ++ fs), hmoves, hasks, ?_⟩
    -- Only a string can go on to the end of the source.
    obtain ⟨hlast, -⟩ | ⟨hexhausted, place, he⟩ := htakes.stops
    · obtain ⟨first, more, -, -, hpiece⟩ := htakes.cut
      have htext : c'.seen = taken (es ++ (skip ++ fs)) := hmoves.seen rfl
      have hpoints := (pointsAt_of_lexical hopen hnext).2
      rw [htext] at hpoints
      obtain ⟨place, remark, piece, hlabel, hunder⟩ := hpoints.underEnd (isLexical_of_firstPiece hpiece)
      exact .wrong ((hlast.behind skip).behind es) hlabel hunder
    · cases he
      exact .sourceEnded hexhausted (.inr (.inr ⟨place, rfl⟩))

/-- **A datum at a console**: lines are asked for only while its text is incomplete, and none once it has ended or is
wrong. -/
theorem feedParser_asks {result : Except ReadFailure Datum} (hw : c.WholeLines) (hbegins : BeginsToken c.rest)
    (h : c.openDatum.feedParser .start = (c', result)) :
    ∃ fs, c.openDatum.Moves fs c' ∧ (∀ s ∈ askedAt fs, Incomplete s) ∧ DatumEnds fs c' result := by
  cases result with
  | ok d =>
    obtain ⟨ts, hscans, hafter⟩ := feedParser_done h
    exact datumEnds_done hw hbegins hscans hafter
  | error failure =>
    obtain ⟨q, t, p, e, hscans, hafter, hpush, rfl⟩ | ⟨ts, last, p, hscans, hafter, hend, rfl⟩ |
        ⟨ts, last, p, hscans, hafter, hnext⟩ := feedParser_failed h
    · exact datumEnds_refused hw hbegins hscans hafter hpush
    · exact datumEnds_sourceEnded hw hbegins hscans hafter hend
    · exact datumEnds_lexical hw hbegins hscans hafter hnext

end Cursor

/-! ## Looking for a datum -/

/-- How a console looks for a datum, `rest` being left of the current line: it goes over blanks and comments; if nothing
else is on the line, it asks for another one with its prompt, and goes over the blanks and comments in front of that. -/
inductive Search (prompt : String) (rest : List Char) : List Happening → Prop
  | atHand {gap after : List Char} (line : rest = gap ++ after) (blank : Atmosphere gap) :
      Search prompt rest (gap.map .took)
  | asking {gap : List Char} (used : Atmosphere rest) (blank : Atmosphere gap) :
      Search prompt rest (rest.map .took ++ .asked prompt [] :: gap.map .took)

namespace Cursor

variable {c c' : Cursor} {e : Happening} {es : List Happening} {prompt : String}

/-- A console with a prompt, between two reads or in the midst of one. -/
structure AtConsole (c : Cursor) (prompt : String) : Prop where
  console : c.console.isSome
  prompt : c.prompt = some prompt
  whole : c.WholeLines
  used : c.atEnd = true → c.rest = []

theorem isSome_showPrompt (c : Cursor) : c.showPrompt.1.console.isSome = c.console.isSome := by
  unfold showPrompt
  split
  · next hconsole =>
    rw [hconsole]
    dsimp only
    split <;> rfl
  · rfl

theorem Does.atConsole (h : c.Does e c') (hc : c.AtConsole prompt) : c'.AtConsole prompt := by
  have hwhole := h.wholeLines hc.whole
  have hused := h.used hc.used
  cases h with
  | took => exact ⟨hc.console, hc.prompt, hwhole, hused⟩
  | asked used goesOn =>
    have hconsole : c.showPrompt.1.console.isSome := c.isSome_showPrompt.trans hc.console
    have hasked := nextLine_asked goesOn
    generalize c.nextLine = answer at hasked hwhole hused ⊢
    cases hasked with
    | stuck | failure | line | ended => exact ⟨hconsole, hc.prompt, hwhole, hused⟩
  | opened | closed => exact ⟨hc.console, hc.prompt, hwhole, hused⟩

theorem endsLine_line (text : String) : EndsLine (text.toList ++ ['\n']) := by
  intro c hc
  rw [List.getLast?_concat] at hc
  cases hc
  rfl

theorem atConsole_start (events : List ConsoleEvent) (echo : Option Channel) (prompt : String) :
    ((start (.console events echo)).withPrompt prompt).AtConsole prompt := by
  refine ⟨rfl, rfl, ⟨endsLine_nil, fun text htext => ?_⟩, nofun⟩
  obtain ⟨event, -, hevent⟩ := List.mem_map.1 htext
  cases event with
  | line entered =>
    cases hevent
    exact endsLine_line entered
  | interrupt | failure | collapse => cases hevent

/-- Where a line was fetched already, no other one is asked for. -/
theorem AtConsole.seekDatum_true (hc : c.AtConsole prompt) :
    (c.seekDatum true).1 = c.skipBuffered := by
  have hconsole : c.skipBuffered.isConsole = true := hc.console
  rw [seekDatum]
  simp only [hconsole, Bool.and_self, if_true]
  split <;> rfl

theorem AtConsole.skipBuffered (hc : c.AtConsole prompt) :
    ∃ gap after, c.rest = gap ++ after ∧ c.skipBuffered.rest = after ∧
      Atmosphere gap ∧ c.Moves (gap.map .took) c.skipBuffered := by
  have hover := c.skipBuffered_goesOver
  refine ⟨_, c.rest.drop (atmosphere c.rest), (List.take_append_drop _ _).symm, rfl, ?_, hover.moves⟩
  have hgap := hover.gap hc.whole
  rwa [taken_map_took] at hgap

theorem seekDatum_of_failure {why : InputFailure} (hr : c.skipBuffered.rest = [])
    (h : c.skipBuffered.nextLine = (c', .error why)) : c.seekDatum false = (c', .error why) := by
  have hbuffered : c.skipBuffered.hasBuffered = false := by simp [hasBuffered, hr]
  rw [seekDatum]
  simp only [hbuffered, Bool.false_and, Bool.false_eq_true, if_false]
  split
  · next h' => cases h.symm.trans h'
  · next h' => cases h.symm.trans h'
  · next h' => cases h.symm.trans h'; rfl

theorem AtConsole.asked (hc : c.AtConsole prompt) (hclosed : c.recording = none) (hr : c.rest = [])
    (hend : c.atEnd = false) :
    c.Moves [.asked prompt []] c.nextLine.1 := by
  have hmoves := Moves.asked hr hend
  have hprompt : c.linePrompt = prompt := by
    rw [linePrompt, hclosed, hc.prompt]
    rfl
  have hseen : c.seen = [] := by rw [seen, hclosed]
  rwa [hprompt, hseen] at hmoves

/-- **A console asks for one line at most before it finds a datum**, and only where nothing but blanks and comments was
left. -/
theorem AtConsole.search (hc : c.AtConsole prompt) (hclosed : c.recording = none) :
    ∃ es, c.Moves es (c.seekDatum false).1 ∧ Search prompt c.rest es := by
  obtain ⟨gap, after, hr, hafter, hblank, hskip⟩ := hc.skipBuffered
  by_cases hbuffered : c.skipBuffered.hasBuffered = true
  · refine ⟨_, ?_, .atHand hr hblank⟩
    rw [seekDatum]
    simp only [hbuffered, if_true]
    exact hskip
  · -- Nothing is left of the line, so another one is asked for, unless there is none.
    have hused : c.skipBuffered.rest = [] := by simpa [hasBuffered] using hbuffered
    rw [← hafter, hused, List.append_nil] at hr
    subst hr
    cases hend : c.skipBuffered.atEnd with
    | true =>
      refine ⟨_, ?_, .atHand (List.append_nil _).symm hblank⟩
      rw [seekDatum_of_used (.inl rfl) hused (nextLine_of_atEnd hend), if_neg Bool.false_ne_true]
      exact hskip
    | false =>
      have hc₁ : c.skipBuffered.AtConsole prompt := hskip.course.keeps Does.atConsole hc
      have hclosed₁ : c.skipBuffered.recording = none := by rw [hskip.recording, hclosed]; rfl
      have hask := hc₁.asked hclosed₁ hused hend
      have hc₂ : c.skipBuffered.nextLine.1.AtConsole prompt := hask.course.keeps Does.atConsole hc₁
      rcases hline : c.skipBuffered.nextLine with ⟨c', why | found⟩
      · rw [hline] at hask
        refine ⟨_, ?_, .asking hblank .nil⟩
        rw [seekDatum_of_failure hused hline]
        exact hskip.append hask
      · rw [hline] at hask hc₂
        rw [seekDatum_of_used (.inl rfl) hused hline]
        cases found with
        | false => exact ⟨_, hskip.append hask, .asking hblank .nil⟩
        | true =>
          obtain ⟨gap, after, -, -, hblank', hskip'⟩ := hc₂.skipBuffered
          refine ⟨_, ?_, .asking hblank hblank'⟩
          rw [if_pos rfl, hc₂.seekDatum_true]
          exact hskip.append (hask.append hskip')

/-! ## Prompts -/

/-- While a datum is open, lines are asked for with the continuation prompt. -/
theorem Moves.prompts_of_open (h : c.Moves es c') (hopen : c.recording.isSome) :
    ∀ q ∈ prompts es, q = continuationPrompt := by
  obtain ⟨course, moves⟩ := h
  induction course with
  | nil => nofun
  | @cons c c₁ c' e es first _ ih =>
    have he := moves e List.mem_cons_self
    have hopen₁ : c₁.recording.isSome := by rwa [first.recording he, Option.isSome_map]
    have hlater := ih hopen₁ fun e' he' => moves e' (List.mem_cons_of_mem _ he')
    cases first with
    | took next => exact hlater
    | asked used goesOn =>
      intro q hq
      obtain rfl | hq := List.mem_cons.1 hq
      · rw [linePrompt, if_pos hopen]
      · exact hlater q hq
    | opened | closed => cases he

/-- A source that has ended is not asked again. -/
theorem Course.prompts_of_atEnd (h : c.Course es c') (hend : c.atEnd = true) : prompts es = [] := by
  induction h with
  | nil => rfl
  | cons first _ ih =>
    cases first with
    | took next => exact ih hend
    | asked used goesOn => cases goesOn.symm.trans hend
    | opened | closed => exact ih hend

/-- The prompts that were shown. -/
def shown (c : Cursor) : List String := c.echoed.map Writing.text

/-- A console whose prompts are written to a channel. -/
def Shows (c : Cursor) : Prop := ∃ channel promptings, c.console = some ⟨some channel, promptings⟩

theorem shown_of_console {channel : Option Channel} {promptings : List Prompting}
    (h : c.console = some ⟨channel, promptings⟩) :
    c.shown = (promptings.map (·.prompt)).reverse := by
  rw [shown, echoed, h]
  simp

theorem Shows.showPrompt (hc : c.Shows) : ∃ channel promptings taken, c.console = some ⟨some channel, promptings⟩ ∧
    ∃ channel', c.showPrompt.1.console = some ⟨some channel', ⟨c.linePrompt, taken⟩ :: promptings⟩ := by
  obtain ⟨channel, promptings, hconsole⟩ := hc
  refine ⟨channel, promptings, (channel.write c.linePrompt).2.1, hconsole, ?_⟩
  unfold Cursor.showPrompt
  rw [hconsole]
  dsimp only
  split
  · exact ⟨_, rfl⟩
  · exact ⟨_, rfl⟩

theorem console_nextLine (h : c.atEnd = false) : c.nextLine.1.console = c.showPrompt.1.console := by
  have hasked := nextLine_asked h
  generalize c.nextLine = answer at hasked ⊢
  cases hasked <;> rfl

/-- **A prompt is shown for every line that is asked for, and for nothing else.** -/
theorem Does.shown (h : c.Does e c') (hc : c.Shows) : c'.Shows ∧ c'.shown = c.shown ++ prompts [e] := by
  cases h with
  | asked used goesOn =>
    obtain ⟨channel, promptings, taken, hconsole, channel', hshown⟩ := hc.showPrompt
    rw [← console_nextLine goesOn] at hshown
    refine ⟨⟨_, _, hshown⟩, ?_⟩
    rw [shown_of_console hshown, shown_of_console hconsole]
    simp [prompts, Happening.prompt?]
  | took | opened | closed => exact ⟨hc, (List.append_nil _).symm⟩

theorem Course.shown (h : c.Course es c') (hc : c.Shows) : c'.Shows ∧ c'.shown = c.shown ++ prompts es := by
  induction h with
  | nil => exact ⟨hc, (List.append_nil _).symm⟩
  | @cons c c₁ c' e es first _ ih =>
    obtain ⟨hc₁, hfirst⟩ := first.shown hc
    obtain ⟨hc', hlater⟩ := ih hc₁
    refine ⟨hc', ?_⟩
    rw [hlater, hfirst, List.append_assoc, ← prompts_append]
    rfl

end Cursor

/-! ## One read after the other -/

/-- What happens in a read at a console, `rest` being left of the current line: the search for a datum, and if there is
one, the reading of it.  Lines are asked for with the continuation prompt then, and only while the text of the datum is
incomplete. -/
inductive ConsoleRead (prompt : String) (rest : List Char) :
    List Happening → Cursor × Except ReadFailure (Option Datum) → Prop
  | nothing {es : List Happening} {c' : Cursor} {result : Except ReadFailure (Option Datum)}
      (search : Search prompt rest es) (nothing : result = .ok none ∨ ∃ why, result = .error (.input why)) :
      ConsoleRead prompt rest es (c', result)
  | datum {es fs : List Happening} {line : Nat} {c' : Cursor} {result : Except ReadFailure Datum}
      (search : Search prompt rest es) (continues : ∀ q ∈ prompts fs, q = continuationPrompt)
      (asks : ∀ s ∈ askedAt fs, Incomplete s) (ends : DatumEnds fs c' result) :
      ConsoleRead prompt rest (es ++ .opened line :: fs ++ [.closed (taken fs)]) (c'.closeDatum, result.map some)

namespace Cursor

variable {c c' : Cursor} {prompt : String}

/-- **What happens in one read at a console.** -/
theorem AtConsole.read (hc : c.AtConsole prompt) (hclosed : c.recording = none) :
    ∃ block, c.Course block c.read.1 ∧ ConsoleRead prompt c.rest block c.read := by
  obtain ⟨es, hes, hsearch⟩ := hc.search hclosed
  obtain ⟨c₁, why, hseek, hread⟩ | ⟨c₁, hseek, hread⟩ | ⟨c₁, hseek, hread⟩ := read_cases c
  · rw [hseek] at hes
    rw [hread]
    exact ⟨es, hes.course, .nothing hsearch (.inr ⟨why, rfl⟩)⟩
  · rw [hseek] at hes
    rw [hread]
    exact ⟨es, hes.course, .nothing hsearch (.inl rfl)⟩
  · rw [hseek] at hes
    have hc₁ : c₁.AtConsole prompt := hes.course.keeps Does.atConsole hc
    rcases hparse : c₁.openDatum.feedParser .start with ⟨c₂, result⟩
    obtain ⟨fs, hfs, hasks, hends⟩ := feedParser_asks hc₁.whole (begins_of_seekDatum hseek) hparse
    rw [hread, hparse]
    exact ⟨_, hes.around hfs, .datum hsearch (hfs.prompts_of_open rfl) hasks hends⟩

/-- **No read leaves a datum open.** -/
theorem recording_read (hclosed : c.recording = none) : c.read.1.recording = none := by
  obtain ⟨es, c₁, found, hes, -, ⟨-, hread⟩ | ⟨-, fs, c₂, result, -, -, hread⟩⟩ := read_course c
  · rw [hread, hes.moves.recording, hclosed]
    rfl
  · rw [hread]
    rfl

/-- Reading from a console that has ended does nothing. -/
theorem AtConsole.read_of_atEnd (hc : c.AtConsole prompt) (hend : c.atEnd = true) : c.read = (c, .ok none) := by
  have hr := hc.used hend
  have hskip : c.skipBuffered = c := by rw [Cursor.skipBuffered, hr, atmosphere, atmosphereFrom, advance_zero]
  have hline : c.skipBuffered.nextLine = (c, .ok false) := by rw [hskip, nextLine_of_atEnd hend]
  have hseek := seekDatum_of_used (.inl rfl) (by rw [hskip, hr]) hline
  rw [if_neg Bool.false_ne_true] at hseek
  rw [Cursor.read, hseek]

end Cursor

/-- A console with a prompt, after so many reads. -/
def consoleAfter (events : List ConsoleEvent) (echo : Option Channel) (prompt : String) (k : Nat) : Cursor :=
  ((Cursor.start (.console events echo)).withPrompt prompt).afterReads k

theorem consoleAfter_atConsole (events : List ConsoleEvent) (echo : Option Channel) (prompt : String) (k : Nat) :
    (consoleAfter events echo prompt k).AtConsole prompt ∧ (consoleAfter events echo prompt k).recording = none ∧
    (echo.isSome → (consoleAfter events echo prompt k).Shows) := by
  induction k with
  | zero =>
    refine ⟨Cursor.atConsole_start events echo prompt, rfl, fun hecho => ?_⟩
    obtain ⟨channel, rfl⟩ := Option.isSome_iff_exists.1 hecho
    exact ⟨channel, [], rfl⟩
  | succ k ih =>
    obtain ⟨hc, hclosed, hshows⟩ := ih
    obtain ⟨block, hcourse, -⟩ := hc.read hclosed
    exact ⟨hcourse.keeps Cursor.Does.atConsole hc, Cursor.recording_read hclosed,
      fun hecho => (hcourse.shown (hshows hecho)).1⟩

/-- **A console is asked only for what is missing.**  In every read one line at most is asked for with the prompt, where
nothing but blanks and comments was left; every other line is asked for with the continuation prompt while the text of
the datum is incomplete, and none once the datum has ended or is found wrong, unless it is nested too deep
(`ConsoleRead`).  No datum is left open; the prompts are those that are shown; and a console that has ended is never
asked again, by this read or any other. -/
theorem console_is_asked_only_for_what_is_missing (events : List ConsoleEvent) (echo : Option Channel)
    (prompt : String) (k : Nat) :
    ∃ block, (consoleAfter events echo prompt k).Course block (consoleAfter events echo prompt (k + 1)) ∧
      ConsoleRead prompt (consoleAfter events echo prompt k).rest block (consoleAfter events echo prompt k).read ∧
      (consoleAfter events echo prompt (k + 1)).recording = none ∧
      (echo.isSome →
        (consoleAfter events echo prompt (k + 1)).shown = (consoleAfter events echo prompt k).shown ++ prompts block) ∧
      (∀ front back, block = front ++ back → ∃ m, (consoleAfter events echo prompt k).Course front m ∧
        m.Course back (consoleAfter events echo prompt (k + 1)) ∧ (m.atEnd = true → prompts back = [])) ∧
      ((consoleAfter events echo prompt k).atEnd = true →
        (consoleAfter events echo prompt k).read = (consoleAfter events echo prompt k, .ok none)) := by
  obtain ⟨hc, hclosed, hshows⟩ := consoleAfter_atConsole events echo prompt k
  obtain ⟨block, hcourse, hread⟩ := hc.read hclosed
  refine ⟨block, hcourse, hread, Cursor.recording_read hclosed, fun hecho => (hcourse.shown (hshows hecho)).2, ?_,
    hc.read_of_atEnd⟩
  rintro front back rfl
  obtain ⟨m, hfront, hback⟩ := hcourse.split
  exact ⟨m, hfront, hback, hback.prompts_of_atEnd⟩

end LispSession
