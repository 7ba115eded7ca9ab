import LispSession.Proofs.Lexing.ByLines
/-!
# What is read depends on the text ahead

A text in front of another one is lexed as if it stood alone, provided that something ends its last word
(`Pieces.append`), and a parser that is done before the first text ends does not notice the second one
(`parseFrom_append`).  A cursor brings a parser to the same place as the text alone (`InDatum.feedParser`).  So two
cursors with the same text ahead of them read the same, however the text is cut into lines and wherever they come from
(`reads_alike`): an error is reported under the line it began on, but it is the same error, at the same place of the
same text.
-/
namespace LispSession

/-! ## Tokens in a row -/

/-- The next pieces of a text are these tokens; where they begin and where they end. -/
inductive Pieces : List Char → List Char → List Token → List Char → List Char → Prop
  | nil {seen ahead : List Char} : Pieces seen ahead [] seen ahead
  | cons {seen ahead seen' ahead' : List Char} {p : Piece} {t : Token} {ts : List Token}
      (next : nextPiece? seen ahead = some p) (item : p.item = .ok t) (later : Pieces p.seen p.ahead ts seen' ahead') :
      Pieces seen ahead (t :: ts) seen' ahead'

theorem pieces_of_lexFrom {ts : List Token} : ∀ {seen ahead : List Char}, lexFrom seen ahead = ts.map .ok →
    ∃ seen' ahead', Pieces seen ahead ts seen' ahead' := by
  induction ts with
  | nil => exact fun _ => ⟨_, _, .nil⟩
  | cons t ts ih =>
    intro seen ahead h
    rw [lexFrom] at h
    split at h
    · cases h
    · next p hnext =>
      obtain ⟨hitem, hlater⟩ := List.cons.inj h
      obtain ⟨seen', ahead', hpieces⟩ := ih hlater
      exact ⟨seen', ahead', .cons hnext hitem hpieces⟩

theorem Pieces.lexed {seen ahead seen' ahead' : List Char} {ts : List Token} (h : Pieces seen ahead ts seen' ahead') :
    lexFrom seen ahead = ts.map .ok ++ lexFrom seen' ahead' := by
  induction h with
  | nil => rfl
  | cons next item _ ih =>
    rw [lexFrom]
    split
    · next hnone => cases next.symm.trans hnone
    · next hnext =>
      cases next.symm.trans hnext
      rw [item, ih, List.map_cons, List.cons_append]

theorem Pieces.trans {ts us : List Token} {seen ahead seen₁ ahead₁ seen' ahead' : List Char}
    (h : Pieces seen ahead ts seen₁ ahead₁) (h' : Pieces seen₁ ahead₁ us seen' ahead') :
    Pieces seen ahead (ts ++ us) seen' ahead' := by
  induction h with
  | nil => exact h'
  | cons next item _ ih => exact .cons next item (ih h')

/-- The piece that starts a text. -/
theorem Pieces.first {seen : List Char} {first : Char} {after : List Char}
    (hs : BeginsToken (first :: after)) {t : Token} (ht : (pieceAt seen first after).item = .ok t) :
    Pieces seen (first :: after) [t] (pieceAt seen first after).seen (pieceAt seen first after).ahead := by
  refine .cons ?_ ht .nil
  rw [nextPiece?, gapOf_starts hs, List.append_nil]
  rfl

theorem Pieces.split {ts us : List Token} {seen ahead seen' ahead' : List Char}
    (h : Pieces seen ahead (ts ++ us) seen' ahead') :
    ∃ seen₁ ahead₁, Pieces seen ahead ts seen₁ ahead₁ ∧ Pieces seen₁ ahead₁ us seen' ahead' := by
  induction ts generalizing seen ahead with
  | nil => exact ⟨seen, ahead, .nil, h⟩
  | cons t ts ih =>
    cases h with
    | cons next item later =>
      obtain ⟨seen₁, ahead₁, hts, hus⟩ := ih later
      exact ⟨seen₁, ahead₁, .cons next item hts, hus⟩

theorem itemAt_eq_ok {seen piece : List Char} {meaning : Except SyntaxError Lexeme} {t : Token}
    (h : itemAt seen piece meaning = .ok t) :
    meaning = .ok t.lexeme ∧ t.span = ⟨utf8Length seen, utf8Length piece⟩ := by
  cases meaning with
  | error e => cases h
  | ok lexeme =>
    cases h
    exact ⟨rfl, rfl⟩

/-- A piece moves the place in the text, and a token ends there. -/
theorem nextPiece?_moves {seen ahead : List Char} {p : Piece} (h : nextPiece? seen ahead = some p) :
    p.seen ++ p.ahead = seen ++ ahead ∧
      ∀ t, p.item = .ok t → t.span.start + t.span.length = utf8Length p.seen := by
  obtain ⟨gap, first, after, rfl, -, -, hs, hnext⟩ | ⟨-, -, hnext⟩ := nextPiece?_cases seen ahead
  · cases h.symm.trans hnext
    obtain ⟨more, hmore, -⟩ := firstPiece_fronts (utf8Length (seen ++ gap)) hs
    rcases hcut : firstPiece (utf8Length (seen ++ gap)) first after with ⟨piece, meaning⟩
    rw [hcut] at hmore
    rw [pieceAt_eq hcut hmore, hmore]
    refine ⟨by simp only [List.append_assoc], fun t ht => ?_⟩
    rw [(itemAt_eq_ok ht).2, ← utf8Length_append]
  · cases h.symm.trans hnext

theorem Pieces.moves {seen ahead seen' ahead' : List Char} {ts : List Token} (h : Pieces seen ahead ts seen' ahead') :
    seen' ++ ahead' = seen ++ ahead ∧ ∀ t ∈ ts.getLast?, t.span.start + t.span.length = utf8Length seen' := by
  induction h with
  | nil => exact ⟨rfl, nofun⟩
  | @cons seen ahead seen' ahead' p t ts next item later ih =>
    obtain ⟨hmoves, hends⟩ := nextPiece?_moves next
    refine ⟨ih.1.trans hmoves, fun t' ht' => ?_⟩
    cases ts with
    | nil =>
      cases later
      cases ht'
      exact hends t item
    | cons t₁ ts => exact ih.2 t' ht'

/-! ## More text behind a text -/

theorem Atmosphere.gapOf_append {gap : List Char} (h : Atmosphere gap) (text : List Char) :
    LispSession.gapOf (gap ++ text) = gap ++ LispSession.gapOf text := by
  induction h with
  | nil => rfl
  | blank hc _ ih => rw [List.cons_append, gapOf_blank hc, ih, List.cons_append]
  | @comment line cs hline _ ih =>
    have hinside : ∀ c ∈ line, decide (c ≠ '\n') = true := fun c hc => decide_eq_true fun heq => hline (heq ▸ hc)
    have htake : (line ++ '\n' :: (cs ++ text)).takeWhile (· ≠ '\n') = line := by
      rw [List.takeWhile_append_of_pos hinside, List.takeWhile_cons_of_neg (by simp), List.append_nil]
    have hdrop : (line ++ '\n' :: (cs ++ text)).dropWhile (· ≠ '\n') = '\n' :: (cs ++ text) := by
      rw [List.dropWhile_append_of_pos hinside, List.dropWhile_cons_of_neg (by simp)]
    rw [List.cons_append, List.append_assoc, List.cons_append, gapOf_comment, htake, hdrop, gapOf_blank (by decide), ih]
    simp only [List.cons_append, List.append_assoc]

theorem Atmosphere.gapOf {gap text : List Char} (h : Atmosphere gap) (hs : BeginsToken text) :
    gapOf (gap ++ text) = gap := by
  rw [h.gapOf_append, gapOf_starts hs, List.append_nil]

theorem Atmosphere.gapOf_self {gap : List Char} (h : Atmosphere gap) : LispSession.gapOf gap = gap := by
  simpa [gapOf_nil] using h.gapOf_append []

theorem BeginsToken.ne_nil {text : List Char} (h : BeginsToken text) : text ≠ [] := by
  obtain ⟨first, after, rfl, -⟩ := h
  exact List.cons_ne_nil first after

theorem BeginsToken.append {text : List Char} (h : BeginsToken text) (more : List Char) :
    BeginsToken (text ++ more) := by
  obtain ⟨first, after, rfl, hfirst⟩ := h
  exact ⟨first, after ++ more, rfl, hfirst⟩

/-- A string that has an end does not change when more text follows. -/
theorem quoted_append {text : List Char} (h : (quoted text).2 ≠ .missing) (more : List Char) :
    quoted (text ++ more) = quoted text := by
  have later {c : Char} {ended : StringEnd} (hc : ended.push c ≠ .missing) : ended ≠ .missing := by
    rintro rfl
    exact hc rfl
  fun_induction quoted text with
  | case1 => exact absurd rfl h
  | case2 cs => rfl
  | case3 => exact absurd rfl h
  | case4 e cs c he ih =>
    rw [List.cons_append, List.cons_append, quoted, he]
    simp only [ih (later h)]
  | case5 e cs he => rw [List.cons_append, List.cons_append, quoted, he]
  | case6 c cs hquote hlast hescape ih =>
    rw [List.cons_append, quoted_plain hquote (ne_backslash hlast hescape), ih (later h)]

/-- Whether an error says that the text ends inside of a datum.  A datum that is nested too deep is skipped, so this
error says so only if the text has ended by then. -/
def SyntaxError.namesEnd (ended : Bool) : SyntaxError → Bool
  | .unterminatedList _ | .danglingQuote _ | .unterminatedString _ => true
  | .nestedTooDeep _ => ended
  | _ => false

/-- A piece that the text does not cut short does not change when something follows that ends words. -/
theorem firstPiece_append {offset : Nat} {first : Char} {after more : List Char} (hs : BeginsToken (first :: after))
    (h : ∀ e, (firstPiece offset first after).2 = .error e → e.namesEnd false = false) (hmore : EndsWord more) :
    firstPiece offset first (after ++ more) = firstPiece offset first after := by
  obtain hword | rfl | rfl | rfl | rfl := hs.kinds
  · have hstop : more.takeWhile (!isDelimiter ·) = [] := by
      cases more with
      | nil => rfl
      | cons d ds => simp [hmore d rfl]
    rw [firstPiece_of_word _ _ hword, firstPiece_of_word _ _ hword, List.takeWhile_append, hstop, List.append_nil]
    split
    · next hall => rw [(List.takeWhile_prefix _).eq_of_length hall]
    · rfl
  · rfl
  · rfl
  · rfl
  · have hended : (quoted after).2 ≠ .missing := fun hmissing => by
      rw [firstPiece, stringPiece, hmissing] at h
      cases h _ rfl
    rw [firstPiece, firstPiece, stringPiece, stringPiece, quoted_append hended]

theorem nextPiece?_append {seen ahead more : List Char} {p : Piece} (h : nextPiece? seen ahead = some p)
    (hitem : ∀ e, p.item = .error e → e.error.namesEnd false = false) (hmore : EndsWord more) :
    nextPiece? seen (ahead ++ more) = some ⟨p.item, p.seen, p.ahead ++ more⟩ := by
  obtain ⟨gap, first, after, rfl, -, hgap, hs, hnext⟩ | ⟨-, -, hnext⟩ := nextPiece?_cases seen ahead
  · cases h.symm.trans hnext
    obtain ⟨left, hleft, -⟩ := firstPiece_fronts (utf8Length (seen ++ gap)) hs
    rcases hcut : firstPiece (utf8Length (seen ++ gap)) first after with ⟨piece, meaning⟩
    rw [hcut] at hleft
    rw [pieceAt_eq hcut hleft] at hitem ⊢
    have hmeaning : ∀ e, (firstPiece (utf8Length (seen ++ gap)) first after).2 = .error e →
        e.namesEnd false = false := by
      rw [hcut]
      rintro e rfl
      exact hitem _ rfl
    have hcut' := firstPiece_append hs hmeaning hmore
    rw [List.append_assoc, nextPiece?, hgap.gapOf (hs.append more), List.drop_left, List.cons_append]
    dsimp only
    rw [pieceAt_eq (hcut'.trans hcut) (show first :: (after ++ more) = piece ++ (left ++ more) by
      rw [← List.cons_append, hleft, List.append_assoc])]
  · cases h.symm.trans hnext

theorem Pieces.append {seen ahead seen' ahead' more : List Char} {ts : List Token}
    (h : Pieces seen ahead ts seen' ahead') (hmore : EndsWord more) :
    Pieces seen (ahead ++ more) ts seen' (ahead' ++ more) := by
  induction h with
  | nil => exact .nil
  | cons next item _ ih => exact .cons (nextPiece?_append next (fun e he => by cases item.symm.trans he) hmore) item ih

/-! ## A parser in a text -/

/-- What comes of a text: a datum or an error, the text up to where this is settled and the text behind it, and whether
the text ended before it was. -/
structure Parse where
  result : Except LexicalError Datum
  seen : List Char
  ahead : List Char
  cutShort : Bool

/-- What a parser makes of a text, of which `seen` lies behind us and `ahead` before us. -/
def parseFrom (p : Parser) (seen ahead : List Char) : Parse :=
  match _h : nextPiece? seen ahead with
  | none => ⟨.error ⟨p.atEnd (utf8Length (seen ++ ahead)), seen ++ ahead⟩, seen ++ ahead, [], true⟩
  | some piece =>
    match piece.item with
    | .error e => ⟨.error e, piece.seen, piece.ahead, e.error.namesEnd false⟩
    | .ok t =>
      match p.push t with
      | .done d => ⟨.ok d, piece.seen, piece.ahead, false⟩
      | .failed error => ⟨.error ⟨error, piece.seen⟩, piece.seen, piece.ahead, false⟩
      | .more p' => parseFrom p' piece.seen piece.ahead
termination_by ahead.length
decreasing_by exact nextPiece?_shorter _h

theorem parseFrom_of_none {seen ahead : List Char} (h : nextPiece? seen ahead = none) (p : Parser) :
    parseFrom p seen ahead =
      ⟨.error ⟨p.atEnd (utf8Length (seen ++ ahead)), seen ++ ahead⟩, seen ++ ahead, [], true⟩ := by
  rw [parseFrom]
  split
  · rfl
  · next hsome => cases h.symm.trans hsome

theorem parseFrom_of_error {seen ahead : List Char} {piece : Piece} {e : LexicalError}
    (h : nextPiece? seen ahead = some piece) (he : piece.item = .error e) (p : Parser) :
    parseFrom p seen ahead = ⟨.error e, piece.seen, piece.ahead, e.error.namesEnd false⟩ := by
  rw [parseFrom]
  split
  · next hnone => cases h.symm.trans hnone
  · next hsome =>
    cases h.symm.trans hsome
    rw [he]

/-- What the answer to a token makes of the text behind it. -/
def Parser.Step.parseFrom (seen ahead : List Char) : Parser.Step → Parse
  | .done d => ⟨.ok d, seen, ahead, false⟩
  | .failed error => ⟨.error ⟨error, seen⟩, seen, ahead, false⟩
  | .more p => LispSession.parseFrom p seen ahead

theorem parseFrom_of_token {seen ahead : List Char} {piece : Piece} {t : Token} (h : nextPiece? seen ahead = some piece)
    (ht : piece.item = .ok t) (p : Parser) : parseFrom p seen ahead = (p.push t).parseFrom piece.seen piece.ahead := by
  rw [parseFrom]
  split
  · next hnone => cases h.symm.trans hnone
  · next hsome =>
    cases h.symm.trans hsome
    rw [ht]
    dsimp only
    cases p.push t <;> rfl

theorem parseFrom_append_of_token {seen ahead more : List Char} {piece : Piece} {t : Token}
    (h : nextPiece? seen ahead = some piece) (ht : piece.item = .ok t) (hmore : EndsWord more) (p : Parser) :
    parseFrom p seen (ahead ++ more) = (p.push t).parseFrom piece.seen (piece.ahead ++ more) := by
  have hlonger := nextPiece?_append h (fun e he => by cases ht.symm.trans he) hmore
  exact parseFrom_of_token hlonger ht p

/-- **A parser that is done before the text ends does not notice what follows**, if it ends words. -/
theorem parseFrom_append {p : Parser} {seen ahead more : List Char} (h : (parseFrom p seen ahead).cutShort = false)
    (hmore : EndsWord more) :
    parseFrom p seen (ahead ++ more) =
      ⟨(parseFrom p seen ahead).result, (parseFrom p seen ahead).seen,
        (parseFrom p seen ahead).ahead ++ more, false⟩ := by
  fun_induction parseFrom p seen ahead with
  | case1 p seen ahead hnone => cases h
  | case2 p seen ahead piece hnext e he =>
    have hlonger := nextPiece?_append hnext (fun e' he' => by cases he.symm.trans he'; exact h) hmore
    rw [parseFrom_of_error hlonger he, show e.error.namesEnd false = false from h]
  | case3 p seen ahead piece hnext t ht d hpush =>
    rw [parseFrom_append_of_token hnext ht hmore, hpush]
    rfl
  | case4 p seen ahead piece hnext t ht error hpush =>
    rw [parseFrom_append_of_token hnext ht hmore, hpush]
    rfl
  | case5 p seen ahead piece hnext t ht p' hpush ih =>
    rw [parseFrom_append_of_token hnext ht hmore, hpush]
    exact ih h

theorem parseFrom_moves (p : Parser) (seen ahead : List Char) :
    (parseFrom p seen ahead).seen ++ (parseFrom p seen ahead).ahead = seen ++ ahead := by
  fun_induction parseFrom p seen ahead with
  | case1 p seen ahead hnone => exact List.append_nil _
  | case2 p seen ahead piece hnext | case3 p seen ahead piece hnext | case4 p seen ahead piece hnext =>
    exact (nextPiece?_moves hnext).1
  | case5 p seen ahead piece hnext t ht p' hpush ih => exact ih.trans (nextPiece?_moves hnext).1

theorem parseFrom_shorter (p : Parser) (seen : List Char) {ahead : List Char} (h : ahead ≠ []) :
    (parseFrom p seen ahead).ahead.length < ahead.length := by
  have hpos := List.length_pos_of_ne_nil h
  fun_induction parseFrom p seen ahead with
  | case1 p seen ahead hnone => exact hpos
  | case2 p seen ahead piece hnext | case3 p seen ahead piece hnext | case4 p seen ahead piece hnext =>
    exact nextPiece?_shorter hnext
  | case5 p seen ahead piece hnext t ht p' hpush ih =>
    have hshorter := nextPiece?_shorter hnext
    by_cases hrest : piece.ahead = []
    · rw [hrest, parseFrom_of_none (by rw [nextPiece?, gapOf_nil]; rfl)]
      exact hpos
    · have hlater := ih hrest (List.length_pos_of_ne_nil hrest)
      omega

/-! ## From the text to the reader -/

namespace Cursor

theorem InDatum.scans {c : Cursor} {line : Nat} {seen ahead seen' ahead' : List Char} {ts : List Token}
    (hp : Pieces seen ahead ts seen' ahead') (h : c.InDatum line seen ahead) :
    ∃ c', c.Scans ts c' ∧ c'.InDatum line seen' ahead' := by
  induction hp generalizing c with
  | nil => exact ⟨c, .nil, h⟩
  | @cons _ _ _ _ p t _ next item later ih =>
    obtain ⟨c₁, hc₁, htoken⟩ := h.nextToken_of_some next
    rw [item] at htoken
    obtain ⟨c', hscans, hc'⟩ := ih hc₁
    exact ⟨c', .cons htoken hscans, hc'⟩

theorem feedParser_of_error {c c' : Cursor} {failure : ReadFailure} (h : c.nextToken = (c', .error failure))
    (p : Parser) :
    c.feedParser p = (c', .error failure) := by
  rw [feedParser]
  split
  · next hf => cases h.symm.trans hf; rfl
  · next hn => cases h.symm.trans hn
  · next ht => cases h.symm.trans ht

theorem InDatum.feedParser_of_some {c : Cursor} {line : Nat} {seen ahead : List Char} (h : c.InDatum line seen ahead)
    {piece : Piece} {t : Token} (hnext : nextPiece? seen ahead = some piece) (ht : piece.item = .ok t) (p : Parser) :
    ∃ c' : Cursor, c'.InDatum line piece.seen piece.ahead ∧ c.feedParser p = c'.settle (p.push t) := by
  obtain ⟨c', hc', htoken⟩ := h.nextToken_of_some hnext
  rw [ht] at htoken
  exact ⟨c', hc', feedParser_of_token htoken p⟩

/-- **A cursor brings a parser to the same place and result as the text alone.** -/
theorem InDatum.feedParser {c : Cursor} {line : Nat} {seen ahead : List Char} (h : c.InDatum line seen ahead)
    (p : Parser) :
    ∃ c', c.feedParser p = (c', (parseFrom p seen ahead).result.mapError (·.failure line)) ∧
      c'.InDatum line (parseFrom p seen ahead).seen (parseFrom p seen ahead).ahead := by
  fun_induction parseFrom p seen ahead generalizing c with
  | case1 p seen ahead hnone =>
    obtain ⟨c', hc', htoken⟩ := h.nextToken_of_none hnone
    refine ⟨c', ?_, hc'⟩
    rw [feedParser_of_end htoken, hc'.reject, hc'.offset]
    rfl
  | case2 p seen ahead piece hnext e he =>
    obtain ⟨c', hc', htoken⟩ := h.nextToken_of_some hnext
    rw [he] at htoken
    exact ⟨c', feedParser_of_error htoken p, hc'⟩
  | case3 p seen ahead piece hnext t ht d hpush =>
    obtain ⟨c', hc', hfed⟩ := h.feedParser_of_some hnext ht p
    rw [hpush] at hfed
    exact ⟨c', hfed, hc'⟩
  | case4 p seen ahead piece hnext t ht error hpush =>
    obtain ⟨c', hc', hfed⟩ := h.feedParser_of_some hnext ht p
    rw [hpush, settle, hc'.reject] at hfed
    exact ⟨c', hfed, hc'⟩
  | case5 p seen ahead piece hnext t ht p' hpush ih =>
    obtain ⟨c₁, hc₁, hfed⟩ := h.feedParser_of_some hnext ht p
    obtain ⟨c', hlater, hc'⟩ := ih hc₁
    rw [hpush, settle, hlater] at hfed
    exact ⟨c', hfed, hc'⟩

/-- **Looking for a datum goes over the blanks and comments in front of the text.** -/
theorem Before.seekDatum {c : Cursor} {ahead : List Char} (h : c.Before ahead) (fetched : Bool) :
    ∃ c' gap more, ahead = gap ++ more ∧ gapOf ahead = gap ∧ c'.Before more ∧
      c.seekDatum fetched = (c', .ok !more.isEmpty) ∧ (more = [] → c'.isExhausted = true) := by
  obtain ⟨gap, after, more, hrest, hne, rfl, hgap, hskip⟩ | ⟨more, rfl, hgap, hskip⟩ := h.skipBuffered
  · have hskipped := h.advance ⟨after, hrest.symm⟩ rfl
    have hr := rest_advance hrest
    rw [← hskip] at hskipped hr
    have hbuffered : c.skipBuffered.hasBuffered = true := by simpa [hasBuffered, hr] using hne
    have hmore : more.isEmpty = false := by
      obtain ⟨later, hlater, -⟩ := hskipped.line
      rw [hr] at hlater
      simp [hlater, hne]
    refine ⟨_, gap, more, rfl, hgap, hskipped, ?_, fun hnil => by rw [hnil] at hmore; cases hmore⟩
    rw [Cursor.seekDatum, hmore]
    simp only [hbuffered, if_true, Bool.not_false]
  · have hskipped := h.advance List.prefix_rfl rfl
    have hused := c.rest_advance_all
    rw [← hskip] at hskipped hused
    obtain ⟨c', hline, hc', -⟩ | ⟨rfl, c', hline, hc', -⟩ := hskipped.nextLine hused
    · have less : c'.pending < c.pending := Nat.lt_of_lt_of_le (pending_nextLine_lt hline) (pending_skipBuffered_le c)
      obtain ⟨c'', gap, more', rfl, hgap', hc'', hseek, hend⟩ := hc'.seekDatum true
      rw [hgap'] at hgap
      refine ⟨c'', c.rest ++ gap, more', (List.append_assoc _ _ _).symm, hgap, hc'', ?_, hend⟩
      rw [seekDatum_of_used (.inr h.console) hused hline, if_pos rfl, hseek]
    · refine ⟨c', c.rest, [], rfl, by rw [hgap, gapOf_nil, List.append_nil], hc', ?_,
        fun _ => isExhausted_of_nextLine hline hused⟩
      rw [seekDatum_of_used (.inr h.console) hused hline, if_neg Bool.false_ne_true]
      rfl
termination_by c.pending

theorem InDatum.closeDatum {c : Cursor} {line : Nat} {seen ahead : List Char} (h : c.InDatum line seen ahead) :
    c.closeDatum.Before ahead :=
  ⟨h.name, h.lines, h.lasting, h.console, h.atEnd⟩

/-- Where nothing but blanks and comments are ahead, nothing is read, and the source is used up. -/
theorem Before.read_gap {c : Cursor} {text : List Char} (h : c.Before text) (all : gapOf text = text) :
    ∃ c', c.read = (c', .ok none) ∧ c'.Before [] ∧ c'.isExhausted = true := by
  obtain ⟨c', gap, more, rfl, hgap, hc', hseek, hend⟩ := h.seekDatum false
  have hnil : more = [] := List.append_right_eq_self.1 (all.symm.trans hgap)
  subst hnil
  exact ⟨c', by rw [read, hseek]; rfl, hc', hend rfl⟩

/-- **Where a datum is ahead, it is opened, and what comes of it is what comes of the text.** -/
theorem Before.read_datum {c : Cursor} {gap more : List Char} (h : c.Before (gap ++ more)) (blank : Atmosphere gap)
    (begins : BeginsToken more) : ∃ c₁ c₂, c.seekDatum false = (c₁, .ok true) ∧ c₁.Before more ∧
      c₁.openDatum.feedParser .start = (c₂, (parseFrom .start [] more).result.mapError (·.failure c₁.lineNumber)) ∧
      c₂.InDatum c₁.lineNumber (parseFrom .start [] more).seen (parseFrom .start [] more).ahead ∧
      c.read = (c₂.closeDatum, ((parseFrom .start [] more).result.mapError (·.failure c₁.lineNumber)).map some) := by
  obtain ⟨c₁, gap', more', htext, hgap, hc₁, hseek, -⟩ := h.seekDatum false
  obtain rfl := hgap.symm.trans (blank.gapOf begins)
  obtain rfl := List.append_cancel_left htext
  have hfound : (!more.isEmpty) = true := by simpa using begins.ne_nil
  rw [hfound] at hseek
  obtain ⟨c₂, hparse, hc₂⟩ := hc₁.openDatum.feedParser .start
  refine ⟨c₁, c₂, hseek, hc₁, hparse, hc₂, ?_⟩
  rw [read, hseek]
  dsimp only
  rw [hparse]

/-- **What is read from a text, whichever cursor reads it.**  Only the line of an error is the cursor's own. -/
theorem read_ahead (ahead : List Char) : ∃ (result : Except LexicalError (Option Datum)) (ahead' : List Char),
    ∀ {c : Cursor}, c.Before ahead → ∃ c' line, c.read = (c', result.mapError (·.failure line)) ∧ c'.Before ahead' := by
  obtain ⟨gap, more, rfl, -, blank, begins⟩ | ⟨all, -⟩ := gapOf_spec ahead
  · refine ⟨(parseFrom .start [] more).result.map some, (parseFrom .start [] more).ahead, fun {c} h => ?_⟩
    obtain ⟨c₁, c₂, -, -, -, hc₂, hread⟩ := h.read_datum blank begins
    refine ⟨_, c₁.lineNumber, ?_, hc₂.closeDatum⟩
    rw [hread]
    cases (parseFrom .start [] more).result <;> rfl
  · refine ⟨.ok none, [], fun {c} h => ?_⟩
    obtain ⟨c', hread, hc', -⟩ := h.read_gap all
    exact ⟨c', 0, hread, hc'⟩

end Cursor

/-! ## Reading on -/

/-- The same datum, or nothing, or the same error with the same text; only the line of the error may be another one. -/
inductive Alike : Except ReadFailure (Option Datum) → Except ReadFailure (Option Datum) → Prop
  | ok (found : Option Datum) : Alike (.ok found) (.ok found)
  | error (error : SyntaxError) (seen : List Char) (line line' : Nat) :
      Alike (.error (.text error (excerptOf line seen))) (.error (.text error (excerptOf line' seen)))

/-- What so many reads bring, one after the other. -/
def Cursor.reads : Nat → Cursor → List (Except ReadFailure (Option Datum))
  | 0, _ => []
  | k + 1, c => c.read.2 :: Cursor.reads k c.read.1

/-- **Two cursors with the same text ahead read the same from there on.** -/
theorem reads_alike (k : Nat) {ahead : List Char} {c c' : Cursor} (h : c.Before ahead) (h' : c'.Before ahead) :
    List.Forall₂ Alike (c.reads k) (c'.reads k) := by
  induction k generalizing ahead c c' with
  | zero => exact .nil
  | succ k ih =>
    obtain ⟨result, ahead', hresult⟩ := Cursor.read_ahead ahead
    obtain ⟨c₁, line, hread, hc₁⟩ := hresult h
    obtain ⟨c₁', line', hread', hc₁'⟩ := hresult h'
    rw [Cursor.reads, Cursor.reads, hread, hread']
    refine .cons ?_ (ih hc₁ hc₁')
    cases result with
    | ok found => exact .ok found
    | error e => exact .error e.error e.seen line line'

end LispSession
