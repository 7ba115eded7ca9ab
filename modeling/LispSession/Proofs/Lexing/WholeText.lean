import LispSession.Proofs.Printed.Words
import Mathlib.Data.List.TakeWhile
/-!
# The tokens of a text, without its lines

`lex` takes a text as one string of characters: it cuts off blanks and comments, then one piece, and goes on behind it.
A piece is a mark, a string or a word; it is a token, or a lexical error.  Nothing here knows of lines, except that a
comment ends with one.

`Laid` says how the pieces lie in the text: one after the other, each spelling its token, and with blanks and comments
only before, between and behind them.  `lexFrom_laid` is the law of the lexer; the order of the spans and the text under
a span follow from it.
-/
namespace LispSession

/-! ## The lexer -/

/-- The blanks and comments in front of a text. -/
def gapOf : List Char → List Char
  | [] => []
  | c :: cs =>
    if c = ';' then c :: (cs.takeWhile (· ≠ '\n') ++ gapOf (cs.dropWhile (· ≠ '\n')))
    else if isBlank c then c :: gapOf cs
    else []
termination_by text => text.length
decreasing_by
  · exact Nat.lt_succ_of_le (List.length_dropWhile_le _ _)
  · exact Nat.lt_succ_self _

/-- How a string ends: with what it holds, at a character that nothing escapes, or not at all. -/
inductive StringEnd where
  | holds (text : List Char)
  | unknownEscape (character : Char)
  | missing

/-- One more character in front of what a string holds. -/
def StringEnd.push (c : Char) : StringEnd → StringEnd
  | .holds text => .holds (c :: text)
  | ended => ended

/-- The characters of a string behind its opening quotation mark, up to its end. -/
def quoted : List Char → List Char × StringEnd
  | [] => ([], .missing)
  | '"' :: _ => (['"'], .holds [])
  | ['\\'] => (['\\'], .missing)
  | '\\' :: e :: cs =>
    match unescape? e with
    | some c => ('\\' :: e :: (quoted cs).1, (quoted cs).2.push c)
    | none => (['\\', e], .unknownEscape e)
  | c :: cs => (c :: (quoted cs).1, (quoted cs).2.push c)

/-- A string at `offset`, of which `after` follows the opening quotation mark. -/
def stringPiece (offset : Nat) (after : List Char) : List Char × Except SyntaxError Lexeme :=
  let piece := '"' :: (quoted after).1
  (piece,
    match (quoted after).2 with
    | .holds text => .ok (.str (String.ofList text))
    | .unknownEscape e => .error (.unknownEscape e ⟨offset + utf8Length piece.dropLast, e.utf8Size⟩)
    | .missing => .error (.unterminatedString ⟨offset, utf8Length piece⟩))

/-- A word at `offset`. -/
def wordPiece (offset : Nat) (word : List Char) : List Char × Except SyntaxError Lexeme :=
  (word,
    match classifyWord word with
    | some lexeme => .ok lexeme
    | none => .error (.unknownLiteral (String.ofList word) ⟨offset, utf8Length word⟩))

/-- The first piece of a text at `offset`, and what it says. -/
def firstPiece (offset : Nat) (first : Char) (after : List Char) : List Char × Except SyntaxError Lexeme :=
  match first with
  | '(' => (['('], .ok .openParen)
  | ')' => ([')'], .ok .closeParen)
  | '\'' => (['\''], .ok .quote)
  | '"' => stringPiece offset after
  | _ => wordPiece offset (first :: after.takeWhile (!isDelimiter ·))

/-- A lexical error, and the text up to the place where it is noticed. -/
structure LexicalError where
  error : SyntaxError
  seen : List Char

/-- What comes next in a text, the text up to its end, and the text behind it. -/
structure Piece where
  item : Except LexicalError Token
  seen : List Char
  ahead : List Char

/-- The token or error that a piece behind `seen` is. -/
def itemAt (seen piece : List Char) : Except SyntaxError Lexeme → Except LexicalError Token
  | .ok lexeme => .ok ⟨lexeme, utf8Length seen, utf8Length piece⟩
  | .error error => .error ⟨error, seen ++ piece⟩

/-- The piece that starts behind `seen`. -/
def pieceAt (seen : List Char) (first : Char) (after : List Char) : Piece :=
  let cut := firstPiece (utf8Length seen) first after
  { item := itemAt seen cut.1 cut.2
    seen := seen ++ cut.1
    ahead := (first :: after).drop cut.1.length }

/-- Cut off the next piece of a text, of which `seen` lies behind us and `ahead` before us. -/
def nextPiece? (seen ahead : List Char) : Option Piece :=
  match ahead.drop (gapOf ahead).length with
  | [] => none
  | first :: after => some (pieceAt (seen ++ gapOf ahead) first after)

theorem firstPiece_ne_nil (offset : Nat) (first : Char) (after : List Char) :
    (firstPiece offset first after).1 ≠ [] := by
  unfold firstPiece
  split <;> exact List.cons_ne_nil _ _

theorem nextPiece?_shorter {seen ahead : List Char} {p : Piece} (h : nextPiece? seen ahead = some p) :
    p.ahead.length < ahead.length := by
  unfold nextPiece? at h
  split at h
  · cases h
  · next first after htext =>
    cases h
    have hgap := congrArg List.length htext
    have hpiece := List.length_pos_iff.2 (firstPiece_ne_nil (utf8Length (seen ++ gapOf ahead)) first after)
    simp only [pieceAt, List.length_drop, List.length_cons] at hgap ⊢
    omega

/-- All tokens and lexical errors of what lies ahead. -/
def lexFrom (seen ahead : List Char) : List (Except LexicalError Token) :=
  match _h : nextPiece? seen ahead with
  | none => []
  | some p => p.item :: lexFrom p.seen p.ahead
termination_by ahead.length
decreasing_by exact nextPiece?_shorter _h

/-- All tokens and lexical errors of a text. -/
def lex (text : List Char) : List (Except LexicalError Token) := lexFrom [] text

/-! ## Blanks and comments -/

/-- Blank characters, and comments each with its line end. -/
inductive Atmosphere : List Char → Prop
  | nil : Atmosphere []
  | blank {c : Char} {cs : List Char} (hc : isBlank c = true) (later : Atmosphere cs) : Atmosphere (c :: cs)
  | comment {text cs : List Char} (hline : '\n' ∉ text) (later : Atmosphere cs) :
      Atmosphere (';' :: (text ++ '\n' :: cs))

theorem gapOf_nil : gapOf [] = [] := by rw [gapOf]

theorem gapOf_comment (cs : List Char) :
    gapOf (';' :: cs) = ';' :: (cs.takeWhile (· ≠ '\n') ++ gapOf (cs.dropWhile (· ≠ '\n'))) := by
  rw [gapOf, if_pos rfl]

theorem gapOf_blank {c : Char} (hc : isBlank c = true) (cs : List Char) : gapOf (c :: cs) = c :: gapOf cs := by
  have hne : c ≠ ';' := by
    rintro rfl
    exact absurd hc (by decide)
  rw [gapOf, if_neg hne, if_pos hc]

theorem gapOf_starts {text : List Char} (h : BeginsToken text) : gapOf text = [] := by
  obtain ⟨first, after, rfl, hblank, hcomment⟩ := h
  rw [gapOf, if_neg hcomment, hblank]
  rfl

theorem Atmosphere.tail {cs : List Char} (h : Atmosphere ('\n' :: cs)) : Atmosphere cs := by
  cases h with
  | blank _ later => exact later

/-- **In front of a text stand blanks and comments, then something to read or the end**; at the end a comment may lack
its line end. -/
theorem gapOf_spec (text : List Char) :
    (∃ gap ahead, text = gap ++ ahead ∧ gapOf text = gap ∧ Atmosphere gap ∧ BeginsToken ahead) ∨
    (gapOf text = text ∧ Atmosphere (text ++ ['\n'])) := by
  fun_induction gapOf text with
  | case1 => exact .inr ⟨rfl, .blank (by decide) .nil⟩
  | case2 cs ih =>
    have hline : '\n' ∉ cs.takeWhile (· ≠ '\n') := fun hmem => by simpa using List.mem_takeWhile_imp hmem
    have hsplit : cs.takeWhile (· ≠ '\n') ++ cs.dropWhile (· ≠ '\n') = cs := List.takeWhile_append_dropWhile
    have hnext := List.head?_dropWhile_not (· ≠ '\n') cs
    generalize cs.takeWhile (· ≠ '\n') = line at hline hsplit ⊢
    generalize cs.dropWhile (· ≠ '\n') = rest at hsplit hnext ih ⊢
    subst hsplit
    cases rest with
    | nil =>
      rw [gapOf_nil]
      exact .inr ⟨rfl, by simpa using Atmosphere.comment hline .nil⟩
    | cons c rest =>
      obtain rfl : c = '\n' := by simpa using hnext
      rw [gapOf_blank (by decide)] at ih ⊢
      obtain ⟨gap, ahead, htext, rfl, hgap, hahead⟩ | ⟨hgap, hall⟩ := ih
      · exact .inl ⟨_, ahead, by simp [htext], rfl, .comment hline hgap.tail, hahead⟩
      · exact .inr ⟨by simp [hgap], by simpa using Atmosphere.comment hline hall.tail⟩
  | case3 c cs hne hc ih =>
    obtain ⟨gap, ahead, htext, rfl, hgap, hahead⟩ | ⟨hgap, hall⟩ := ih
    · exact .inl ⟨_, ahead, congrArg (c :: ·) htext, rfl, .blank hc hgap, hahead⟩
    · exact .inr ⟨congrArg (c :: ·) hgap, .blank hc hall⟩
  | case4 c cs hne hc => exact .inl ⟨[], c :: cs, rfl, rfl, .nil, c, cs, rfl, by simpa using hc, hne⟩

/-! ## Pieces -/

/-- The characters between quotation marks, and the text they hold. -/
inductive Quotes : List Char → List Char → Prop
  | nil : Quotes [] []
  | plain {c : Char} {cs text : List Char} (hquote : c ≠ '"') (hbackslash : c ≠ '\\') (later : Quotes cs text) :
      Quotes (c :: cs) (c :: text)
  | escape {e c : Char} {cs text : List Char} (he : unescape? e = some c) (later : Quotes cs text) :
      Quotes ('\\' :: e :: cs) (c :: text)

theorem StringEnd.push_eq_holds {c : Char} {ended : StringEnd} {held : List Char} (h : ended.push c = .holds held) :
    ∃ text, ended = .holds text ∧ held = c :: text := by
  cases ended with
  | holds text =>
    cases h
    exact ⟨text, rfl, rfl⟩
  | unknownEscape | missing => cases h

theorem StringEnd.push_eq_unknownEscape {c e : Char} {ended : StringEnd} (h : ended.push c = .unknownEscape e) :
    ended = .unknownEscape e := by
  cases ended with
  | unknownEscape e' => exact h
  | holds | missing => cases h

theorem ne_backslash {c : Char} {cs : List Char} (hlast : c = '\\' → cs = [] → False)
    (hescape : ∀ e cs', c = '\\' → cs = e :: cs' → False) : c ≠ '\\' := fun hc => by
  cases cs with
  | nil => exact hlast hc rfl
  | cons e cs => exact hescape e cs hc rfl

theorem quoted_plain {c : Char} (hquote : c ≠ '"') (hbackslash : c ≠ '\\') (cs : List Char) :
    quoted (c :: cs) = (c :: (quoted cs).1, (quoted cs).2.push c) := by
  rw [quoted.eq_5 c cs hquote (fun h _ => hbackslash h) (fun _ _ h _ => hbackslash h)]

/-- A string takes what stands in front of the text, and ends in a quotation mark or in the character that nothing
escapes. -/
structure StringCut (text : List Char) (cut : List Char × StringEnd) : Prop where
  front : ∃ more, text = cut.1 ++ more
  holds : ∀ held, cut.2 = .holds held → ∃ body, cut.1 = body ++ ['"'] ∧ Quotes body held
  unknownEscape : ∀ e, cut.2 = .unknownEscape e → ∃ body, cut.1 = body ++ [e]

/-- What stands for one more character may be put in front. -/
theorem StringCut.push {text : List Char} {cut : List Char × StringEnd} (h : StringCut text cut)
    {front : List Char} {c : Char} (hfront : ∀ {body held}, Quotes body held → Quotes (front ++ body) (c :: held)) :
    StringCut (front ++ text) (front ++ cut.1, cut.2.push c) where
  front := by
    obtain ⟨more, hmore⟩ := h.front
    exact ⟨more, by rw [List.append_assoc, ← hmore]⟩
  holds held hheld := by
    obtain ⟨later, hlater, rfl⟩ := StringEnd.push_eq_holds hheld
    obtain ⟨body, hbody, hquotes⟩ := h.holds later hlater
    exact ⟨front ++ body, by rw [hbody, List.append_assoc], hfront hquotes⟩
  unknownEscape e he := by
    obtain ⟨body, hbody⟩ := h.unknownEscape e (StringEnd.push_eq_unknownEscape he)
    exact ⟨front ++ body, by rw [hbody, List.append_assoc]⟩

theorem quoted_cut (text : List Char) : StringCut text (quoted text) := by
  fun_induction quoted text with
  | case1 => exact ⟨⟨[], rfl⟩, nofun, nofun⟩
  | case2 cs =>
    refine ⟨⟨cs, rfl⟩, fun held h => ?_, nofun⟩
    cases h
    exact ⟨[], rfl, .nil⟩
  | case3 => exact ⟨⟨[], rfl⟩, nofun, nofun⟩
  | case4 e cs c he ih => exact @StringCut.push cs (quoted cs) ih ['\\', e] c (.escape he)
  | case5 e cs he =>
    refine ⟨⟨cs, rfl⟩, nofun, fun e' h => ?_⟩
    cases h
    exact ⟨['\\'], rfl⟩
  | case6 c cs hquote hlast hescape ih =>
    exact @StringCut.push cs (quoted cs) ih [c] c (.plain hquote (ne_backslash hlast hescape))

/-- What a piece of text spells, `more` being what follows it.  A word goes as far as it can. -/
inductive Spelling : List Char → Lexeme → List Char → Prop
  | openParen {more : List Char} : Spelling ['('] .openParen more
  | closeParen {more : List Char} : Spelling [')'] .closeParen more
  | quote {more : List Char} : Spelling ['\''] .quote more
  | string {body text more : List Char} (h : Quotes body text) :
      Spelling ('"' :: (body ++ ['"'])) (.str (String.ofList text)) more
  | word {piece more : List Char} {lexeme : Lexeme} (hword : IsWord piece) (hmeaning : classifyWord piece = some lexeme)
      (hmore : EndsWord more) : Spelling piece lexeme more

/-- Where the remarks on an error point. -/
def SyntaxError.places (e : SyntaxError) : List Span := e.labels.map Prod.fst

/-- A span that is not empty lies between two offsets. -/
def Span.Within (s : Span) (first last : Nat) : Prop := first ≤ s.start ∧ 0 < s.length ∧ s.start + s.length ≤ last

/-- A piece in front of a text at `offset`: it spells what it says, or an error points into it. -/
def Fronts (offset : Nat) (text : List Char) (cut : List Char × Except SyntaxError Lexeme) : Prop :=
  ∃ more, text = cut.1 ++ more ∧
    match cut.2 with
    | .ok lexeme => Spelling cut.1 lexeme more
    | .error error => ∃ place, error.places = [place] ∧ place.Within offset (offset + utf8Length cut.1)

theorem utf8Length_pos {text : List Char} (h : text ≠ []) : 0 < utf8Length text := by
  cases text with
  | nil => exact absurd rfl h
  | cons c cs =>
    have := c.utf8Size_pos
    rw [utf8Length_cons]
    omega

theorem firstPiece_string (offset : Nat) (after : List Char) :
    Fronts offset ('"' :: after) (firstPiece offset '"' after) := by
  obtain ⟨⟨more, hmore⟩, hholds, hunknown⟩ := quoted_cut after
  refine ⟨more, congrArg ('"' :: ·) hmore, ?_⟩
  cases hended : (quoted after).2 with
  | holds text =>
    obtain ⟨body, hbody, hquotes⟩ := hholds text hended
    simp only [firstPiece, stringPiece, hended, hbody]
    exact .string hquotes
  | unknownEscape e =>
    obtain ⟨body, hbody⟩ := hunknown e hended
    have hlast : ('"' :: (body ++ [e])).dropLast = '"' :: body := by rw [← List.cons_append, List.dropLast_concat]
    have hsize := e.utf8Size_pos
    simp only [firstPiece, stringPiece, hended, hbody, hlast]
    refine ⟨_, rfl, ?_⟩
    simp only [Span.Within, utf8Length_cons, utf8Length_append, utf8Length_nil]
    omega
  | missing =>
    have hpos := utf8Length_pos (List.cons_ne_nil '"' (quoted after).1)
    simp only [firstPiece, stringPiece, hended]
    exact ⟨_, rfl, Nat.le_refl _, hpos, Nat.le_refl _⟩

theorem firstPiece_of_word (offset : Nat) {first : Char} (after : List Char) (h : isDelimiter first = false) :
    firstPiece offset first after = wordPiece offset (first :: after.takeWhile (!isDelimiter ·)) := by
  unfold firstPiece
  split <;> first | rfl | exact absurd h (by decide)

theorem firstPiece_word (offset : Nat) {first : Char} (after : List Char) (h : isDelimiter first = false) :
    Fronts offset (first :: after) (firstPiece offset first after) := by
  rw [firstPiece_of_word offset after h]
  refine ⟨after.dropWhile (!isDelimiter ·), by simp [wordPiece], ?_⟩
  have hword : IsWord (first :: after.takeWhile (!isDelimiter ·)) := by
    refine ⟨List.cons_ne_nil _ _, fun c hc => ?_⟩
    obtain rfl | hc := List.mem_cons.1 hc
    · exact h
    · simpa using List.mem_takeWhile_imp hc
  have hmore : EndsWord (after.dropWhile (!isDelimiter ·)) := fun c hc => by
    have hnext := List.head?_dropWhile_not (!isDelimiter ·) after
    rw [hc] at hnext
    simpa using hnext
  generalize first :: after.takeWhile (!isDelimiter ·) = word at hword
  cases hmeaning : classifyWord word with
  | some lexeme =>
    simp only [wordPiece, hmeaning]
    exact .word hword hmeaning hmore
  | none =>
    have hpos := utf8Length_pos hword.1
    simp only [wordPiece, hmeaning]
    exact ⟨_, rfl, Nat.le_refl _, hpos, Nat.le_refl _⟩

/-- What can be read begins with a word, a mark or a string. -/
theorem BeginsToken.kinds {first : Char} {after : List Char} (h : BeginsToken (first :: after)) :
    isDelimiter first = false ∨ first = '(' ∨ first = ')' ∨ first = '\'' ∨ first = '"' := by
  obtain ⟨first, after, heq, hblank, hcomment⟩ := h
  cases heq
  cases hword : isDelimiter first with
  | false => exact .inl rfl
  | true =>
    have hmark : ((first = '(' ∨ first = ')') ∨ first = '\'') ∨ first = '"' := by
      simpa [isDelimiter, hblank, hcomment] using hword
    rw [or_assoc, or_assoc] at hmark
    exact .inr hmark

/-- **The first piece of a text spells what it says.** -/
theorem firstPiece_fronts (offset : Nat) {first : Char} {after : List Char} (h : BeginsToken (first :: after)) :
    Fronts offset (first :: after) (firstPiece offset first after) := by
  obtain hword | rfl | rfl | rfl | rfl := h.kinds
  · exact firstPiece_word offset after hword
  · exact ⟨after, rfl, .openParen⟩
  · exact ⟨after, rfl, .closeParen⟩
  · exact ⟨after, rfl, .quote⟩
  · exact firstPiece_string offset after

/-! ## The pieces in the text -/

/-- A text, of which `seen` lies behind us and `ahead` before us, holds these tokens and errors: each takes a piece of
it, and there are only blanks and comments before, between and behind the pieces.  At the end of the text a comment may
lack its line end. -/
inductive Laid : List Char → List Char → List (Except LexicalError Token) → Prop
  | nil {seen gap : List Char} (blank : Atmosphere (gap ++ ['\n'])) : Laid seen gap []
  | token {seen gap piece more : List Char} {t : Token} {items : List (Except LexicalError Token)}
      (blank : Atmosphere gap) (spells : Spelling piece t.lexeme more)
      (span : t.span = ⟨utf8Length (seen ++ gap), utf8Length piece⟩)
      (later : Laid (seen ++ gap ++ piece) more items) : Laid seen (gap ++ piece ++ more) (.ok t :: items)
  | error {seen gap piece more : List Char} {e : LexicalError} {place : Span} {items : List (Except LexicalError Token)}
      (blank : Atmosphere gap) (upTo : e.seen = seen ++ gap ++ piece) (points : e.error.places = [place])
      (inside : place.Within (utf8Length (seen ++ gap)) (utf8Length (seen ++ gap ++ piece)))
      (later : Laid (seen ++ gap ++ piece) more items) : Laid seen (gap ++ piece ++ more) (.error e :: items)

/-- How the next piece comes about: behind blanks and comments, if there is anything else. -/
theorem nextPiece?_cases (seen ahead : List Char) :
    (∃ gap first after, ahead = gap ++ first :: after ∧ gapOf ahead = gap ∧ Atmosphere gap ∧
      BeginsToken (first :: after) ∧ nextPiece? seen ahead = some (pieceAt (seen ++ gap) first after)) ∨
    (gapOf ahead = ahead ∧ Atmosphere (ahead ++ ['\n']) ∧ nextPiece? seen ahead = none) := by
  obtain ⟨gap, text, rfl, hgap, hblank, hstarts⟩ | ⟨hgap, hall⟩ := gapOf_spec ahead
  · obtain ⟨first, after, rfl, hfirst⟩ := hstarts
    refine .inl ⟨gap, first, after, rfl, hgap, hblank, ⟨first, after, rfl, hfirst⟩, ?_⟩
    rw [nextPiece?, hgap, List.drop_left]
  · refine .inr ⟨hgap, hall, ?_⟩
    rw [nextPiece?, hgap, List.drop_length]

theorem Laid.ofPiece {seen gap : List Char} {first : Char} {after : List Char} (blank : Atmosphere gap)
    (h : BeginsToken (first :: after)) {items : List (Except LexicalError Token)}
    (later : Laid (pieceAt (seen ++ gap) first after).seen (pieceAt (seen ++ gap) first after).ahead items) :
    Laid seen (gap ++ first :: after) ((pieceAt (seen ++ gap) first after).item :: items) := by
  obtain ⟨more, hmore, hspec⟩ := firstPiece_fronts (utf8Length (seen ++ gap)) h
  unfold pieceAt at later ⊢
  generalize firstPiece (utf8Length (seen ++ gap)) first after = cut at hmore hspec later ⊢
  obtain ⟨piece, error | lexeme⟩ := cut
  · dsimp only at hmore hspec later ⊢
    rw [hmore, List.drop_left] at later
    rw [hmore, ← List.append_assoc]
    obtain ⟨place, hplace, hinside⟩ := hspec
    exact .error blank rfl hplace (utf8Length_append _ piece ▸ hinside) later
  · dsimp only at hmore hspec later ⊢
    rw [hmore, List.drop_left] at later
    rw [hmore, ← List.append_assoc]
    exact .token blank hspec rfl later

/-- **The law of the lexer.** -/
theorem lexFrom_laid (seen ahead : List Char) : Laid seen ahead (lexFrom seen ahead) := by
  fun_induction lexFrom seen ahead with
  | case1 seen ahead h =>
    obtain ⟨gap, first, after, -, -, -, -, hnext⟩ | ⟨-, hall, -⟩ := nextPiece?_cases seen ahead
    · cases h.symm.trans hnext
    · exact .nil hall
  | case2 seen ahead p h ih =>
    obtain ⟨gap, first, after, rfl, -, hgap, hstarts, hnext⟩ | ⟨-, -, hnext⟩ := nextPiece?_cases seen ahead
    · cases h.symm.trans hnext
      exact .ofPiece hgap hstarts ih
    · cases h.symm.trans hnext

/-- The spans of a token or of an error. -/
def spansOf : Except LexicalError Token → List Span
  | .ok t => [t.span]
  | .error e => e.error.places

theorem Spelling.ne_nil {piece more : List Char} {lexeme : Lexeme} (h : Spelling piece lexeme more) : piece ≠ [] := by
  cases h with
  | openParen | closeParen | quote | string => exact List.cons_ne_nil _ _
  | word hword => exact hword.1

/-- A span in front of others that lie in order. -/
theorem increasing_cons {s : Span} {spans : List Span} {first next last : Nat} (hs : s.Within first next)
    (hlast : next ≤ last) (hspans : ∀ s' ∈ spans, s'.Within next last)
    (hsorted : spans.Pairwise fun a b => a.start + a.length ≤ b.start) :
    (∀ s' ∈ s :: spans, s'.Within first last) ∧ (s :: spans).Pairwise fun a b => a.start + a.length ≤ b.start := by
  obtain ⟨hstart, hpos, hstop⟩ := hs
  refine ⟨fun s' hs' => ?_, List.pairwise_cons.2 ⟨fun s' hs' => ?_, hsorted⟩⟩
  · obtain rfl | hs' := List.mem_cons.1 hs'
    · exact ⟨hstart, hpos, by omega⟩
    · obtain ⟨hstart', hpos', hstop'⟩ := hspans s' hs'
      exact ⟨by omega, hpos', hstop'⟩
  · have hstart' := (hspans s' hs').1
    omega

/-- **The spans of the pieces are not empty, and each begins where the one before it has ended or later.** -/
theorem Laid.increasing {seen ahead : List Char} {items : List (Except LexicalError Token)}
    (h : Laid seen ahead items) :
    (∀ s ∈ items.flatMap spansOf, s.Within (utf8Length seen) (utf8Length (seen ++ ahead))) ∧
    (items.flatMap spansOf).Pairwise fun a b => a.start + a.length ≤ b.start := by
  induction h with
  | nil => exact ⟨nofun, .nil⟩
  | @token seen gap piece more t items blank spells span later ih =>
    have hpos := utf8Length_pos spells.ne_nil
    have hs : t.span.Within (utf8Length seen) (utf8Length (seen ++ gap ++ piece)) := by
      rw [span]
      simp only [Span.Within, utf8Length_append]
      omega
    rw [List.flatMap_cons, ← List.append_assoc, ← List.append_assoc]
    exact increasing_cons hs (by simp) ih.1 ih.2
  | @error seen gap piece more e place items blank upTo points inside later ih =>
    have hs : place.Within (utf8Length seen) (utf8Length (seen ++ gap ++ piece)) :=
      ⟨Nat.le_trans (by simp) inside.1, inside.2⟩
    rw [List.flatMap_cons, spansOf, points, ← List.append_assoc, ← List.append_assoc]
    exact increasing_cons hs (by simp) ih.1 ih.2

/-- **The text under the span of a token spells it.** -/
theorem Laid.slice {seen ahead : List Char} {items : List (Except LexicalError Token)}
    (h : Laid seen ahead items) {t : Token} (ht : .ok t ∈ items) :
    ∃ before piece more, seen ++ ahead = before ++ piece ++ more ∧
      t.span = ⟨utf8Length before, utf8Length piece⟩ ∧ Spelling piece t.lexeme more := by
  induction h with
  | nil => cases ht
  | @token seen gap piece more t' items blank spells span later ih =>
    obtain ht | ht := List.mem_cons.1 ht
    · cases ht
      exact ⟨seen ++ gap, piece, more, by simp, span, spells⟩
    · obtain ⟨before, piece', more', htext, hspan⟩ := ih ht
      exact ⟨before, piece', more', by rw [← htext]; simp, hspan⟩
  | @error seen gap piece more e place items blank upTo points inside later ih =>
    obtain ht | ht := List.mem_cons.1 ht
    · cases ht
    · obtain ⟨before, piece', more', htext, hspan⟩ := ih ht
      exact ⟨before, piece', more', by rw [← htext]; simp, hspan⟩

end LispSession
