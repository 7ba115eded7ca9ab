import LispSession.Proofs.Course
/-!
# Labels point at the offending text

A syntax error is built where it is noticed, but its labels were measured earlier: at the opener of a list, at a quote,
at the first parenthesis beyond the limit.  They stay right because the text of an open datum only grows at its end
(`Under.append`), and because every token that was read lies in the text recorded by then (`Cursor.Scans.under`).

`SyntaxError.PointsAt` says of each error what stands under its labels in the text it is reported with, `more` being
what follows that text on the line.
-/
namespace LispSession

/-- The text under a span is this piece, which is not empty. -/
def Under (text : List Char) (place : Span) (piece : List Char) : Prop :=
  piece ≠ [] ∧ ∃ before after, text = before ++ piece ++ after ∧ place = ⟨utf8Length before, utf8Length piece⟩

theorem Under.append {text piece : List Char} {place : Span} (h : Under text place piece) (more : List Char) :
    Under (text ++ more) place piece := by
  obtain ⟨hne, before, after, rfl, hplace⟩ := h
  exact ⟨hne, before, after ++ more, by simp, hplace⟩

/-- The piece under a span ends the text. -/
def UnderEnd (text : List Char) (place : Span) (piece : List Char) : Prop :=
  piece ≠ [] ∧ ∃ before, text = before ++ piece ∧ place = ⟨utf8Length before, utf8Length piece⟩

theorem UnderEnd.under {text piece : List Char} {place : Span} (h : UnderEnd text place piece) :
    Under text place piece := by
  obtain ⟨hne, before, rfl, hplace⟩ := h
  exact ⟨hne, before, [], by simp, hplace⟩

/-- What stands under the labels of an error. -/
def SyntaxError.PointsAt (text more : List Char) : SyntaxError → Prop
  | .unexpectedToken found place =>
    found = .closeParen ∧ UnderEnd text place [')'] ∨ found = .dot ∧ UnderEnd text place ['.']
  | .expectedCloseParen opener found place =>
    Under text opener ['('] ∧ ∃ piece lexeme, UnderEnd text place piece ∧ Spelling piece lexeme more ∧
      lexeme.kind = found
  | .unterminatedList opener => Under text opener ['(']
  | .danglingQuote place => Under text place ['\'']
  | .unterminatedString place => ∃ body, UnderEnd text place ('"' :: body) ∧ quoted body = (body, .missing)
  | .unknownEscape character place =>
    UnderEnd text place [character] ∧ unescape? character = none ∧
      character.utf8Size ≤ utf8Length text ∧ place.start = utf8Length text - character.utf8Size
  | .unknownLiteral literal place => UnderEnd text place literal.toList ∧ literal.toList.head? = some '#'
  | .nestedTooDeep place => Under text place ['('] ∨ Under text place ['\'']

/-- **Every label lies over a piece of the text.** -/
theorem SyntaxError.PointsAt.labels {text more : List Char} {e : SyntaxError} (h : e.PointsAt text more) :
    ∀ label ∈ e.labels, ∃ piece, Under text label.1 piece := by
  have single {place : Span} {remark : String} {piece : List Char} (hplace : Under text place piece) :
      ∀ label ∈ [(place, remark)], ∃ piece, Under text label.1 piece := fun label hlabel => by
    rw [List.mem_singleton.1 hlabel]
    exact ⟨piece, hplace⟩
  cases e with
  | unexpectedToken found place =>
    obtain ⟨-, h⟩ | ⟨-, h⟩ := h
    · exact single h.under
    · exact single h.under
  | expectedCloseParen opener found place =>
    obtain ⟨hopener, piece, lexeme, hplace, -⟩ := h
    intro label hlabel
    obtain rfl | hlabel := List.mem_cons.1 hlabel
    · exact ⟨_, hopener⟩
    · exact single hplace.under label hlabel
  | unterminatedList opener => exact single h
  | danglingQuote place => exact single h
  | unterminatedString place =>
    obtain ⟨body, hplace, -⟩ := h
    exact single hplace.under
  | unknownEscape character place => exact single h.1.under
  | unknownLiteral literal place => exact single h.1.under
  | nestedTooDeep place =>
    obtain h | h := h
    · exact single h
    · exact single h

/-! ## Lexical errors -/

theorem quoted_missing {text : List Char} (h : (quoted text).2 = .missing) : (quoted text).1 = text := by
  fun_induction quoted text with
  | case1 => rfl
  | case2 | case5 => cases h
  | case3 => rfl
  | case4 e cs c he ih =>
    cases hended : (quoted cs).2 with
    | missing => rw [ih hended]
    | holds | unknownEscape => rw [hended] at h; cases h
  | case6 c cs hquote hlast hescape ih =>
    cases hended : (quoted cs).2 with
    | missing => rw [ih hended]
    | holds | unknownEscape => rw [hended] at h; cases h

/-- What ends a string at an unknown escape is a character that nothing escapes. -/
theorem quoted_unknownEscape {text : List Char} {e : Char} (h : (quoted text).2 = .unknownEscape e) :
    unescape? e = none ∧ ∃ body, (quoted text).1 = body ++ [e] := by
  refine ⟨?_, (quoted_cut text).unknownEscape e h⟩
  fun_induction quoted text with
  | case1 | case2 | case3 => cases h
  | case4 e' cs c he ih => exact ih (StringEnd.push_eq_unknownEscape h)
  | case5 e' cs he =>
    cases h
    exact he
  | case6 c cs hquote hlast hescape ih => exact ih (StringEnd.push_eq_unknownEscape h)

theorem head?_of_classifyWord {word : List Char} (h : classifyWord word = none) : word.head? = some '#' := by
  unfold classifyWord at h
  split at h
  · cases h
  · split at h
    · cases h
    · split at h
      · cases h
      · split at h
        · assumption
        · split at h <;> cases h

/-- **A piece that is an error** is labelled where it is wrong. -/
theorem pointsAt_of_firstPiece {seen piece left : List Char} {first : Char} {more : List Char} {e : SyntaxError}
    (hbegins : BeginsToken (first :: more)) (hcut : piece ++ left = first :: more)
    (h : firstPiece (utf8Length seen) first more = (piece, .error e)) : e.PointsAt (seen ++ piece) left := by
  obtain hword | rfl | rfl | rfl | rfl := hbegins.kinds
  · rw [firstPiece_of_word _ _ hword, wordPiece] at h
    generalize hpiece : first :: more.takeWhile (!isDelimiter ·) = word at h
    have hne : word ≠ [] := hpiece ▸ List.cons_ne_nil _ _
    cases hmeaning : classifyWord word with
    | some lexeme =>
      rw [hmeaning] at h
      cases h
    | none =>
      rw [hmeaning] at h
      cases h
      refine ⟨?_, ?_⟩
      · rw [String.toList_ofList]
        exact ⟨hne, seen, rfl, rfl⟩
      · rw [String.toList_ofList]
        exact head?_of_classifyWord hmeaning
  · cases h
  · cases h
  · cases h
  · rw [firstPiece, stringPiece] at h
    obtain ⟨rfl, hmeaning⟩ := Prod.mk.inj h
    cases hended : (quoted more).2 with
    | holds text =>
      rw [hended] at hmeaning
      cases hmeaning
    | unknownEscape ch =>
      rw [hended] at hmeaning
      cases hmeaning
      obtain ⟨hunknown, body, hbody⟩ := quoted_unknownEscape hended
      rw [hbody, ← List.cons_append, List.dropLast_concat, ← List.append_assoc]
      have hstart : utf8Length ((seen ++ '"' :: body) ++ [ch]) =
          utf8Length seen + utf8Length ('"' :: body) + ch.utf8Size := by
        simp only [utf8Length_append, utf8Length_cons, utf8Length_nil]
        omega
      refine ⟨⟨List.cons_ne_nil _ _, seen ++ '"' :: body, rfl, ?_⟩, hunknown, by omega, by rw [hstart]; simp⟩
      rw [utf8Length_append]
      rfl
    | missing =>
      rw [hended] at hmeaning
      cases hmeaning
      have hall := quoted_missing hended
      rw [hall]
      exact ⟨more, ⟨List.cons_ne_nil _ _, seen, rfl, rfl⟩, Prod.ext hall hended⟩

/-! ## Tokens -/

/-- How a mark is written. -/
def Lexeme.mark? : Lexeme → Option (List Char)
  | .openParen => some ['(']
  | .closeParen => some [')']
  | .quote => some ['\'']
  | .dot => some ['.']
  | _ => none

/-- The only word that is a mark is the dot. -/
theorem word_of_mark? {word mark : List Char} {lexeme : Lexeme} (h : classifyWord word = some lexeme)
    (hmark : lexeme.mark? = some mark) :
    word = mark := by
  unfold classifyWord at h
  split at h
  · cases h
    cases hmark
    assumption
  · split at h
    · cases h
      cases hmark
    · split at h
      · cases h
        cases hmark
      · split at h
        · cases h
        · split at h
          · cases h
            cases hmark
          · cases h
            cases hmark

theorem Spelling.eq_mark {piece more mark : List Char} {lexeme : Lexeme} (h : Spelling piece lexeme more)
    (hmark : lexeme.mark? = some mark) : piece = mark := by
  cases h with
  | openParen | closeParen | quote => exact Option.some.inj hmark
  | string => cases hmark
  | word _ hmeaning => exact word_of_mark? hmeaning hmark

theorem InnermostOpen.mem {ts : List Token} {o : Token} (h : InnermostOpen ts o) :
    o ∈ ts ∧ o.lexeme.mark? = some ['('] := by
  obtain ⟨q, inside, rfl, ho, -⟩ := h
  exact ⟨by simp, by rw [ho]; rfl⟩

namespace Cursor

variable {c c' : Cursor} {ts : List Token} {t : Token}

theorem nextToken_underEnd (hopen : c.recording.isSome) (h : c.nextToken = (c', .ok (some t))) :
    ∃ more piece, c'.seen = c.seen ++ more ∧ UnderEnd c'.seen t.span piece ∧ Spelling piece t.lexeme c'.rest := by
  obtain ⟨es, fs, c₁, hskips, -, hmoves, -, -, hspells, hspan⟩ := nextToken_token hopen h
  have hopen₁ : c₁.recording.isSome := hskips.moves.isOpen ▸ hopen
  have hseen := hmoves.seen hopen₁
  refine ⟨taken es ++ taken fs, taken fs, ?_, ⟨hspells.ne_nil, c₁.seen, hseen, hspan⟩, hspells⟩
  rw [hseen, hskips.moves.seen hopen, List.append_assoc]

/-- **Every token that was read lies in the text recorded by then.** -/
theorem Scans.under (h : c.Scans ts c') (hopen : c.recording.isSome) :
    (∃ more, c'.seen = c.seen ++ more) ∧
    ∀ t ∈ ts, ∃ piece more, Under c'.seen t.span piece ∧ Spelling piece t.lexeme more := by
  induction h with
  | nil => exact ⟨⟨[], (List.append_nil _).symm⟩, nofun⟩
  | @cons c c₁ c' t ts first later ih =>
    obtain ⟨es, hes⟩ := nextToken_course hopen
    rw [first] at hes
    obtain ⟨⟨more, hmore⟩, hlater⟩ := ih (hes.moves.isOpen ▸ hopen)
    obtain ⟨more₁, piece, hseen, hends, hspells⟩ := nextToken_underEnd hopen first
    refine ⟨⟨more₁ ++ more, by rw [hmore, hseen, List.append_assoc]⟩, fun t' ht' => ?_⟩
    obtain rfl | ht' := List.mem_cons.1 ht'
    · exact ⟨piece, _, hmore ▸ hends.under.append more, hspells⟩
    · exact hlater t' ht'

theorem Scans.split {us : List Token} :
    ∀ {ts : List Token} {c : Cursor}, c.Scans (ts ++ us) c' → ∃ m, c.Scans ts m ∧ m.Scans us c'
  | [], c, h => ⟨c, .nil, h⟩
  | t :: ts, c, h => by
    cases h with
    | cons first later =>
      obtain ⟨m, hts, hus⟩ := Scans.split later
      exact ⟨m, .cons first hts, hus⟩

theorem Scans.underEnd (h : c.Scans (ts ++ [t]) c') (hopen : c.recording.isSome) :
    ∃ piece, UnderEnd c'.seen t.span piece ∧ Spelling piece t.lexeme c'.rest := by
  obtain ⟨m, hts, ht⟩ := h.split
  obtain ⟨es, hes⟩ := hts.moves hopen
  cases ht with
  | cons first later =>
    cases later
    obtain ⟨-, piece, -, hends, hspells⟩ := nextToken_underEnd (hes.isOpen ▸ hopen) first
    exact ⟨piece, hends, hspells⟩

/-- A mark among the tokens that were read stands where its span says. -/
theorem Scans.under_mark {mark : List Char} (h : c.Scans ts c') (hopen : c.recording.isSome) (ht : t ∈ ts)
    (hmark : t.lexeme.mark? = some mark) : Under c'.seen t.span mark := by
  obtain ⟨piece, more, hunder, hspells⟩ := (h.under hopen).2 t ht
  rwa [← hspells.eq_mark hmark]

theorem Scans.underEnd_mark {mark : List Char} (h : c.Scans (ts ++ [t]) c') (hopen : c.recording.isSome)
    (hmark : t.lexeme.mark? = some mark) : UnderEnd c'.seen t.span mark := by
  obtain ⟨piece, hends, hspells⟩ := h.underEnd hopen
  rwa [← hspells.eq_mark hmark]

theorem atEnd_ne_expected (p : Parser) (offset : Nat) (opener place : Span) (found : Lexeme.Kind) :
    p.atEnd offset ≠ .unexpectedToken found place ∧ p.atEnd offset ≠ .expectedCloseParen opener found place := by
  cases p with
  | reading stack =>
    cases stack with
    | nil => exact ⟨nofun, nofun⟩
    | cons form stack => cases form <;> exact ⟨nofun, nofun⟩
  | closing | skipping => exact ⟨nofun, nofun⟩

/-- **An error that a row of tokens gives** is labelled at its tokens. -/
theorem pointsAt_of_reported {last stop : Cursor} {e : SyntaxError} (hopen : c.recording.isSome)
    (hscans : c.Scans ts last) (hreported : Reported ts [] e)
    (hstop : stop = last ∨ last.nextToken = (stop, .ok none) ∧ ∃ p : Parser, e = p.atEnd stop.offset) :
    e.PointsAt stop.seen stop.rest := by
  have hlast : last.recording.isSome := by
    obtain ⟨es, hes⟩ := hscans.moves hopen
    exact hes.isOpen ▸ hopen
  -- What was recorded behind the last token does not move the labels.
  have grows {place : Span} {piece : List Char} (hunder : Under last.seen place piece) :
      Under stop.seen place piece := by
    obtain rfl | ⟨hend, -⟩ := hstop
    · exact hunder
    · obtain ⟨es, hes⟩ := nextToken_course hlast
      rw [hend] at hes
      rw [hes.moves.seen hlast]
      exact hunder.append _
  cases hreported with
  | @unexpectedToken q _ t _ stray =>
    obtain rfl | ⟨-, p, hp⟩ := hstop
    · obtain ht | ht := stray
      · exact .inl ⟨by rw [ht]; rfl, hscans.underEnd_mark hopen (by rw [ht]; rfl)⟩
      · exact .inr ⟨by rw [ht]; rfl, hscans.underEnd_mark hopen (by rw [ht]; rfl)⟩
    · exact absurd hp.symm (atEnd_ne_expected p _ t.span _ _).1
  | @expectedCloseParen q _ o t _ inside =>
    obtain rfl | ⟨-, p, hp⟩ := hstop
    · obtain ⟨piece, hends, hspells⟩ := hscans.underEnd hopen
      have hopener := hscans.under_mark hopen (List.mem_append_left [t] inside.mem.1) inside.mem.2
      exact ⟨hopener, piece, t.lexeme, hends, hspells, rfl⟩
    · exact absurd hp.symm (atEnd_ne_expected p _ _ _ _).2
  | @nestedTooDeep q skipped _ t _ opens =>
    obtain ht | ht := opens
    · exact .inl (grows (hscans.under_mark hopen (by simp) (by rw [ht]; rfl)))
    · exact .inr (grows (hscans.under_mark hopen (by simp) (by rw [ht]; rfl)))
  | @danglingQuote q t _ ht => exact grows (hscans.under_mark hopen (by simp) (by rw [ht]; rfl))
  | unterminatedList _ _ inside => exact grows (hscans.under_mark hopen inside.mem.1 inside.mem.2)

/-- **An error of the lexer** is labelled at the piece it is made of. -/
theorem pointsAt_of_lexical {e : SyntaxError} {excerpt : Excerpt} (hopen : c.recording.isSome)
    (h : c.nextToken = (c', .error (.text e excerpt))) : excerpt = c'.excerpt ∧ e.PointsAt c'.seen c'.rest := by
  obtain ⟨hexcerpt, es, fs, c₁, hskips, -, -, htakes⟩ := nextToken_error hopen h
  obtain ⟨first, more, hcut, hbegins, hpiece⟩ := htakes.cut
  rw [htakes.moves.seen (hskips.moves.isOpen ▸ hopen)]
  exact ⟨hexcerpt, pointsAt_of_firstPiece hbegins hcut hpiece⟩

end Cursor

/-- **Labels point at the offending text**, whatever is read.  The text that a syntax error is reported with holds,
under the labels of the error, the lexemes it is about; no label is empty, and all of them begin and end between two
characters of the text. -/
theorem labels_point_at_offending_text {c c' : Cursor} {e : SyntaxError} {excerpt : Excerpt}
    (h : c.read = (c', .error (.text e excerpt))) :
    e.PointsAt excerpt.text.toList c'.rest ∧ ∀ label ∈ e.labels, ∃ piece, Under excerpt.text.toList label.1 piece := by
  have hpoints : e.PointsAt excerpt.text.toList c'.rest := by
    obtain ⟨c₁, ts, last, stop, -, hscans, rfl, hlexical | ⟨-, hreported, rfl, hstop⟩⟩ := Cursor.read_failed h
    · obtain ⟨es, hes⟩ := hscans.moves rfl
      obtain ⟨rfl, hpoints⟩ := Cursor.pointsAt_of_lexical (hes.isOpen ▸ rfl) hlexical
      rw [Cursor.text_excerpt, String.toList_ofList]
      exact hpoints
    · rw [Cursor.text_excerpt, String.toList_ofList]
      exact Cursor.pointsAt_of_reported rfl hscans hreported hstop
  exact ⟨hpoints, hpoints.labels⟩

/-- Labels behind characters of several bytes and over a line end: the symbol behind a dotted tail, and a letter that
nothing escapes. -/
theorem symbol_and_letter_are_labelled :
    (∃ c', (Cursor.start (.code "(é\n . \"ü\" λx)")).read =
        (c', .error (.text (.expectedCloseParen ⟨0, 1⟩ .symbol ⟨12, 3⟩) ⟨"<code>:1", "(é\n . \"ü\" λx"⟩)) ∧
      (SyntaxError.expectedCloseParen ⟨0, 1⟩ .symbol ⟨12, 3⟩).PointsAt "(é\n . \"ü\" λx".toList c'.rest ∧
      ∀ label ∈ (SyntaxError.expectedCloseParen ⟨0, 1⟩ .symbol ⟨12, 3⟩).labels,
        ∃ piece, Under "(é\n . \"ü\" λx".toList label.1 piece) ∧
    (∃ c', (Cursor.start (.code "\n\"ü\n\\é\"")).read =
      (c', .error (.text (.unknownEscape 'é' ⟨5, 2⟩) ⟨"<code>:2", "\"ü\n\\é"⟩)) ∧
      (SyntaxError.unknownEscape 'é' ⟨5, 2⟩).PointsAt "\"ü\n\\é".toList c'.rest ∧
      ∀ label ∈ (SyntaxError.unknownEscape 'é' ⟨5, 2⟩).labels, ∃ piece, Under "\"ü\n\\é".toList label.1 piece) := by
  have symbol : ∃ c', (Cursor.start (.code "(é\n . \"ü\" λx)")).read =
      (c', .error (.text (.expectedCloseParen ⟨0, 1⟩ .symbol ⟨12, 3⟩) ⟨"<code>:1", "(é\n . \"ü\" λx"⟩)) :=
        ⟨_, by with_unfolding_all rfl⟩
  have letter : ∃ c', (Cursor.start (.code "\n\"ü\n\\é\"")).read =
      (c', .error (.text (.unknownEscape 'é' ⟨5, 2⟩) ⟨"<code>:2", "\"ü\n\\é"⟩)) := ⟨_, by with_unfolding_all rfl⟩
  obtain ⟨c₁, symbol⟩ := symbol
  obtain ⟨c₂, letter⟩ := letter
  exact ⟨⟨c₁, symbol, labels_point_at_offending_text symbol⟩, c₂, letter, labels_point_at_offending_text letter⟩

end LispSession
