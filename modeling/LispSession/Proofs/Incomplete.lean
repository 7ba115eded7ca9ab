import LispSession.Proofs.FirstWrong
/-!
# Texts that are not a whole datum yet

A text is incomplete if its last string has no end, or if its tokens wait for more: a list is open, a quote stands last,
or the tokens have gone beyond the limit and are being skipped (`Awaits`).  A parser that has been fed with some tokens
and wishes for more has been fed with such a row (`Parser.awaits`); in all cases but that of the quote it is because
more lists were opened than closed, and the parser knows how many (`Parser.unclosed`).

What a text lexes to can be told from the way it was read: gap by gap and piece by piece (`nextPiece?_of_spelling`).
-/
namespace LispSession

open LispSession.Parser

/-! ## Texts put together -/

/-- A piece goes with any text that starts like what follows it, or ends words. -/
theorem Spelling.follow {piece more more' : List Char} {lexeme : Lexeme} (h : Spelling piece lexeme more)
    (hmore : EndsWord more' ∨ more'.head? = more.head?) : Spelling piece lexeme more' := by
  cases h with
  | openParen => exact .openParen
  | closeParen => exact .closeParen
  | quote => exact .quote
  | string h => exact .string h
  | word hword hmeaning hends =>
    refine .word hword hmeaning ?_
    obtain hmore | hmore := hmore
    · exact hmore
    · unfold EndsWord
      rwa [hmore]

theorem quoted_of_quotes {body text : List Char} (h : Quotes body text) (more : List Char) :
    quoted (body ++ '"' :: more) = (body ++ ['"'], .holds text) := by
  induction h with
  | nil => rfl
  | plain hquote hbackslash _ ih =>
    rw [List.cons_append, quoted_plain hquote hbackslash, ih]
    rfl
  | escape he _ ih =>
    rw [List.cons_append, List.cons_append, quoted, he]
    simp only [ih]
    rfl

/-- What spells a lexeme is the first piece of the text it begins. -/
theorem Spelling.firstPiece {piece more : List Char} {lexeme : Lexeme} (h : Spelling piece lexeme more) (offset : Nat) :
    ∃ first after, piece ++ more = first :: after ∧ BeginsToken (first :: after) ∧
      firstPiece offset first after = (piece, .ok lexeme) := by
  cases h with
  | openParen | closeParen | quote => exact ⟨_, more, rfl, ⟨_, _, rfl, by decide, by decide⟩, rfl⟩
  | @string body text _ h =>
    refine ⟨'"', body ++ '"' :: more, by simp, ⟨_, _, rfl, by decide, by decide⟩, ?_⟩
    rw [LispSession.firstPiece, stringPiece, quoted_of_quotes h]
  | word hword hmeaning hmore =>
    obtain ⟨first, cs, rfl⟩ := List.exists_cons_of_ne_nil hword.1
    have hfirst : isDelimiter first = false := hword.2 first List.mem_cons_self
    have hcs : (cs ++ more).takeWhile (!isDelimiter ·) = cs := by
      have hinside : ∀ c ∈ cs, (!isDelimiter c) = true := fun c hc => by rw [hword.2 c (List.mem_cons_of_mem _ hc)]; rfl
      rw [List.takeWhile_append_of_pos hinside]
      cases more with
      | nil => rw [List.takeWhile_nil, List.append_nil]
      | cons d ds => rw [List.takeWhile_cons_of_neg (by simp [hmore d rfl]), List.append_nil]
    refine ⟨first, cs ++ more, rfl, hword.starts.append more, ?_⟩
    rw [firstPiece_of_word _ _ hfirst, hcs, wordPiece, hmeaning]

theorem Spelling.last_ne_newline {piece more : List Char} {lexeme : Lexeme} (h : Spelling piece lexeme more) :
    piece.getLast? ≠ some '\n' := by
  cases h with
  | openParen | closeParen | quote => decide
  | string h =>
    rw [← List.cons_append, List.getLast?_concat]
    decide
  | word hword =>
    intro hlast
    have hnewline := hword.2 '\n' (List.mem_of_getLast? hlast)
    exact absurd hnewline (by decide)

/-- **The piece behind a gap is the next one.** -/
theorem nextPiece?_of_spelling {gap piece more : List Char} {lexeme : Lexeme} (hgap : Atmosphere gap)
    (h : Spelling piece lexeme more) (seen : List Char) :
    nextPiece? seen (gap ++ (piece ++ more)) =
      some ⟨.ok ⟨lexeme, utf8Length (seen ++ gap), utf8Length piece⟩, seen ++ gap ++ piece, more⟩ := by
  obtain ⟨first, after, hcut, hbegins, hpiece⟩ := h.firstPiece (utf8Length (seen ++ gap))
  rw [hcut, nextPiece?, hgap.gapOf hbegins, List.drop_left]
  dsimp only
  rw [pieceAt_eq hpiece hcut.symm]
  rfl

theorem isDelimiter_of_isBlank {c : Char} (h : isBlank c = true) : isDelimiter c = true := by
  simp [isDelimiter, h]

theorem Atmosphere.endsWord {gap text : List Char} (h : Atmosphere gap) (htext : EndsWord text) :
    EndsWord (gap ++ text) := by
  cases h with
  | nil => exact htext
  | blank hc =>
    rintro _ ⟨rfl⟩
    exact isDelimiter_of_isBlank hc
  | comment =>
    rintro _ ⟨rfl⟩
    decide

theorem lexFrom_atmosphere {gap : List Char} (h : Atmosphere gap) (seen : List Char) : lexFrom seen gap = [] := by
  rw [lexFrom]
  split
  · rfl
  · next hnext =>
    rw [nextPiece?, h.gapOf_self, List.drop_length] at hnext
    cases hnext

theorem lexFrom_string {gap body : List Char} (hgap : Atmosphere gap) (hbody : quoted body = (body, .missing))
    (seen : List Char) :
    lexFrom seen (gap ++ '"' :: body) =
      [.error ⟨.unterminatedString ⟨utf8Length (seen ++ gap), utf8Length ('"' :: body)⟩,
          seen ++ gap ++ '"' :: body⟩] := by
  have hnext : nextPiece? seen (gap ++ '"' :: body) = some ⟨.error ⟨.unterminatedString ⟨utf8Length (seen ++ gap),
      utf8Length ('"' :: body)⟩, seen ++ gap ++ '"' :: body⟩, seen ++ gap ++ '"' :: body, []⟩ := by
    have hpiece : LispSession.firstPiece (utf8Length (seen ++ gap)) '"' body =
        ('"' :: body, .error (.unterminatedString ⟨utf8Length (seen ++ gap), utf8Length ('"' :: body)⟩)) := by
      rw [LispSession.firstPiece, stringPiece, hbody]
    rw [nextPiece?, hgap.gapOf ⟨'"', body, rfl, by decide, by decide⟩, List.drop_left]
    dsimp only
    rw [pieceAt_eq hpiece (List.append_nil _).symm]
    rfl
  rw [lexFrom]
  split
  · next hnone => cases hnext.symm.trans hnone
  · next hsome =>
    cases hnext.symm.trans hsome
    rw [lexFrom_atmosphere .nil]

namespace Parser

/-! ## Lists that are still open -/

/-- How many lists are still to be closed. -/
def unclosed : Parser → Nat
  | .reading stack => listsIn stack
  | .closing _ _ _ stack => listsIn stack + 1
  | .skipping _ unclosed => unclosed

theorem deliver_unclosed {d : Datum} {stack : List OpenForm} {p : Parser} (h : deliver d stack = .more p) :
    p.unclosed = listsIn stack := by
  induction stack generalizing d with
  | nil => cases h
  | cons form stack ih =>
    cases form with
    | list opener items =>
      cases h
      rfl
    | tail opener items =>
      cases h
      exact (@listsIn_list (.tail opener items) rfl stack).symm
    | quote place =>
      rw [listsIn_quote]
      exact ih h

theorem enter_unclosed {form : OpenForm} {place : Span} {stack : List OpenForm} {p : Parser}
    (h : enter form place stack = .more p) :
    p.unclosed = listsIn (form :: stack) := by
  unfold enter at h
  split at h
  · cases h
    rfl
  · split at h
    · cases h
    · next n hn =>
      cases h
      rfl

/-- **A token opens a list, closes one, or neither.** -/
theorem push_unclosed {p p' : Parser} {t : Token} (h : p.push t = .more p') :
    p'.unclosed + closers [t] = p.unclosed + openers [t] := by
  obtain ⟨lexeme, span⟩ := t
  cases p with
  | reading stack =>
    cases lexeme with
    | openParen =>
      obtain ⟨hopens, hcloses⟩ := @openers_openParen ⟨.openParen, span⟩ rfl
      rw [hopens, hcloses, enter_unclosed h, @listsIn_list (.list span []) rfl]
      rfl
    | quote =>
      rw [enter_unclosed h, listsIn_quote]
      rfl
    | closeParen =>
      obtain ⟨hopens, hcloses⟩ := @closers_closeParen ⟨.closeParen, span⟩ rfl
      cases stack with
      | nil => cases h
      | cons form stack =>
        cases form with
        | list opener items =>
          rw [hopens, hcloses, deliver_unclosed h]
          exact (@listsIn_list (.list opener items) rfl stack).symm
        | tail | quote => cases h
    | dot =>
      cases stack with
      | nil => cases h
      | cons form stack =>
        cases form with
        | list opener items =>
          cases items with
          | nil => cases h
          | cons item items =>
            cases h
            rfl
        | tail | quote => cases h
    | str | num | bool | sym =>
      rw [deliver_unclosed h]
      rfl
  | closing opener items tail stack =>
    cases lexeme with
    | closeParen =>
      rw [deliver_unclosed h]
      rfl
    | openParen | quote | dot | str | num | bool | sym => cases h
  | skipping place n =>
    cases lexeme with
    | closeParen =>
      rw [push] at h
      split at h
      · cases h
      · next hmany =>
        cases h
        show n - 1 + 1 = n + 0
        omega
    | openParen | quote | dot | str | num | bool | sym =>
      cases h
      rfl

/-- Tokens are skipped only as long as a list is open. -/
def SkipsInList : Parser → Prop
  | .skipping _ unclosed => 0 < unclosed
  | _ => True

theorem push_skipsInList {p p' : Parser} {t : Token} (hp : p.SkipsInList) (h : p.push t = .more p') :
    p'.SkipsInList := by
  have delivered {d : Datum} {stack : List OpenForm} (hd : deliver d stack = .more p') : p'.SkipsInList := by
    obtain ⟨d', hdone⟩ | ⟨stack', hmore⟩ | ⟨opener, items, tail, stack', hmore⟩ := deliver_cases d stack
    · cases hdone.symm.trans hd
    · cases hmore.symm.trans hd
      trivial
    · cases hmore.symm.trans hd
      trivial
  cases p with
  | reading stack =>
    obtain ⟨d, stack', hd⟩ | ⟨stack', hmore⟩ | ⟨-, hfailed⟩ | ⟨-, -, n, hgave⟩ := push_reading_cases stack t
    · exact delivered (hd.symm.trans h)
    · cases hmore.symm.trans h
      trivial
    · cases hfailed.symm.trans h
    · have hskips := hgave.symm.trans h
      cases n with
      | zero => cases hskips
      | succ n =>
        cases hskips
        exact Nat.succ_pos n
  | closing opener items tail stack =>
    obtain ⟨d, stack', hd⟩ | hfailed := push_closing_cases opener items tail stack t
    · exact delivered (hd.symm.trans h)
    · cases hfailed.symm.trans h
  | skipping place n =>
    obtain ⟨lexeme, span⟩ := t
    cases lexeme with
    | openParen =>
      cases h
      exact Nat.succ_pos n
    | closeParen =>
      rw [push] at h
      split at h
      · cases h
      · next hmany =>
        cases h
        show 0 < n - 1
        omega
    | quote | dot | str | num | bool | sym =>
      cases h
      exact hp

/-- **What one token keeps, a row of tokens keeps**: the lists that are open are counted. -/
theorem after_unclosed {ts : List Token} : ∀ {p p' : Parser}, p.SkipsInList → (Step.more p).after ts = some (.more p') →
    p'.SkipsInList ∧ p'.unclosed + closers ts = p.unclosed + openers ts := by
  induction ts with
  | nil =>
    intro p p' hp h
    cases h
    exact ⟨hp, rfl⟩
  | cons t ts ih =>
    intro p p' hp h
    rw [Step.after] at h
    cases hpush : p.push t with
    | more p₁ =>
      obtain ⟨hp', hlater⟩ := ih (push_skipsInList hp hpush) (hpush ▸ h)
      have hfirst := push_unclosed hpush
      rw [closers_cons, openers_cons]
      exact ⟨hp', by omega⟩
    | done | failed =>
      rw [hpush] at h
      cases ts <;> cases h

end Parser

/-! ## Waiting for more -/

/-- Tokens that are no whole datum: a list is open, a quote stands last, or all is skipped until the lists are closed,
as the tokens have gone beyond the limit. -/
inductive Awaits : List Token → Prop
  | list {ts : List Token} (viable : Viable ts) (unclosed : closers ts < openers ts) : Awaits ts
  | quote {ts : List Token} {t : Token} (viable : Viable (ts ++ [t])) (last : t.lexeme = .quote) : Awaits (ts ++ [t])
  | tooDeep {ts : List Token} {t : Token} (beyond : FirstBeyond ts t) (unclosed : closers ts < openers ts) : Awaits ts

/-- **A parser that wishes for more has a reason.** -/
theorem Parser.awaits {ts : List Token} {p : Parser} (hne : ts ≠ [])
    (h : (Step.more .start).after ts = some (.more p)) : Awaits ts := by
  obtain ⟨hskips, hcount⟩ := after_unclosed (show SkipsInList .start from trivial) h
  rw [show unclosed .start = 0 from rfl, Nat.zero_add] at hcount
  have hexplained := after_explained (.reading .nil) h
  cases hexplained with
  | reading opened =>
    have hviable := opened.viable
    cases opened with
    | nil => exact absurd rfl hne
    | @list o q ps items stack n outer ho inside hn =>
      rw [unclosed, @listsIn_list (.list o.span items) rfl] at hcount
      exact .list hviable (by omega)
    | @tail o dot q ps items stack n outer ho hdot inside hne hn =>
      rw [unclosed, @listsIn_list (.tail o.span items) rfl] at hcount
      exact .list hviable (by omega)
    | quote outer ht hn => exact .quote hviable ht
  | closing outer ho hdot inside hitems hn tail hm =>
    rw [unclosed] at hcount
    exact .list (Parser.Explained.viable (.closing outer ho hdot inside hitems hn tail hm) nofun) (by omega)
  | @skipping place n =>
    obtain ⟨t, hover, -⟩ := oversteps_of_skipping h
    have hpos : 0 < n := hskips
    rw [unclosed] at hcount
    exact .tooDeep hover.firstBeyond (by omega)

/-- A text that is no whole datum: its tokens await more, or its last string has no end. -/
inductive Incomplete (text : List Char) : Prop
  | tokens {ts : List Token} (lexed : lex text = ts.map .ok) (awaits : Awaits ts)
  | string {ts : List Token} {place : Span}
      (lexed : lex text = ts.map .ok ++ [.error ⟨.unterminatedString place, text⟩]) (awaits : ts ≠ [] → Awaits ts)

end LispSession
