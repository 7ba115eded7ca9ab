import LispSession.ReadFailure
/-!
# From lines to tokens

A token is found on the current line; only blanks, comments and strings go on over a line end.  Each of the three
has a function on one line, which says how far it reaches, and a loop that fetches the next line when the
current one is used up.  `nextToken_pending_lt` is why reading tokens ends.
-/
namespace LispSession

/-! ## On one line -/

/-- How many characters in front are blank or in a comment, `n` being counted already.  A comment ends with the
line. -/
def atmosphereFrom (n : Nat) (comment : Bool) : List Char → Nat
  | [] => n
  | c :: cs =>
    if comment then atmosphereFrom (n + 1) (c != '\n') cs
    else if c == ';' then atmosphereFrom (n + 1) true cs
    else if isBlank c then atmosphereFrom (n + 1) false cs
    else n

/-- How many characters in front of a line are blank or in a comment. -/
def atmosphere (line : List Char) : Nat := atmosphereFrom 0 false line

/-- What a backslash makes of the character after it. -/
def unescape? : Char → Option Char
  | 'n' => some '\n'
  | 't' => some '\t'
  | 'r' => some '\r'
  | '\\' => some '\\'
  | '"' => some '"'
  | _ => none

/-- How far a string reaches on a line: it is closed, or broken by an unknown escape, after so many characters, or it
goes on over the line end, perhaps between a backslash and the character it escapes. -/
inductive StringScan where
  | closed (taken : Nat) (text : String)
  | unknownEscape (taken : Nat) (character : Char)
  | unfinished (text : String) (escaped : Bool)

/-- Follow a string on a line, `taken` characters being read already. -/
def scanString (text : String) (escaped : Bool) (taken : Nat) : List Char → StringScan
  | [] => .unfinished text escaped
  | c :: cs =>
    if escaped then
      match unescape? c with
      | some d => scanString (text.push d) false (taken + 1) cs
      | none => .unknownEscape (taken + 1) c
    else if c == '"' then .closed (taken + 1) text
    else if c == '\\' then scanString text true (taken + 1) cs
    else scanString (text.push c) false (taken + 1) cs

/-- The characters up to the next delimiter. -/
def wordOf (line : List Char) : List Char := line.takeWhile fun c => !isDelimiter c

namespace Cursor

/-! ## Over line ends -/

/-- Skip what is blank or comment on the current line. -/
def skipBuffered (c : Cursor) : Cursor := c.advance (atmosphere c.rest)

/-- Skip blanks and comments, fetching lines until something else or the end of the source is reached. -/
def skipAtmosphere (c : Cursor) : Cursor × Except InputFailure Unit :=
  let skipped := c.skipBuffered
  if skipped.hasBuffered then (skipped, .ok ())
  else
    match h : skipped.nextLine with
    | (c', .ok true) =>
      have : c'.pending < c.pending := by
        have := pending_nextLine_lt h
        simp [skipped, skipBuffered] at this
        omega
      c'.skipAtmosphere
    | (c', .ok false) => (c', .ok ())
    | (c', .error why) => (c', .error why)
termination_by c.pending

/-- Read on in a string that started at `start`, of which `text` is known, up to its closing quotation mark. -/
def finishString (start : Nat) (text : String) (escaped : Bool) (c : Cursor) :
    Cursor × Except ReadFailure String :=
  match scanString text escaped 0 c.rest with
  | .closed taken text => (c.advance taken, .ok text)
  | .unknownEscape taken character =>
    let c := c.advance taken
    let place := Span.between (Span.stepBack c.offset character.utf8Size) c.offset
    (c, .error (c.reject (.unknownEscape character place)))
  | .unfinished text escaped =>
    match h : (c.advance c.rest.length).nextLine with
    | (c', .ok true) =>
      have : c'.pending < c.pending := by
        have := pending_nextLine_lt h
        simp at this
        omega
      c'.finishString start text escaped
    | (c', .ok false) =>
      (c', .error (c'.reject (.unterminatedString (.between start c'.offset))))
    | (c', .error why) => (c', .error (.input why))
termination_by c.pending

/-- The token that a lexeme read from `start` on makes. -/
def token (c : Cursor) (start : Nat) (lexeme : Lexeme) : Token := ⟨lexeme, .between start c.offset⟩

/-- Read a word. -/
def takeWord (c : Cursor) (word : List Char) : Cursor × Except ReadFailure Token :=
  let start := c.offset
  let c := c.advance word.length
  match classifyWord word with
  | some lexeme => (c, .ok (c.token start lexeme))
  | none =>
    let place := Span.between start (start + utf8Length word)
    (c, .error (c.reject (.unknownLiteral (String.ofList word) place)))

/-- Read a mark of one character. -/
def takeMark (c : Cursor) (lexeme : Lexeme) : Cursor × Except ReadFailure Token :=
  let start := c.offset
  let c := c.advance 1
  (c, .ok (c.token start lexeme))

/-- Read a string, of which the opening quotation mark comes next. -/
def takeString (c : Cursor) : Cursor × Except ReadFailure Token :=
  let start := c.offset
  match (c.advance 1).finishString start "" false with
  | (c, .ok text) => (c, .ok (c.token start (.str text)))
  | (c, .error failure) => (c, .error failure)

/-- Read the token that starts with `first`, which is followed by `after` on the line. -/
def takeToken (c : Cursor) (first : Char) (after : List Char) : Cursor × Except ReadFailure Token :=
  match first with
  | '(' => c.takeMark .openParen
  | ')' => c.takeMark .closeParen
  | '\'' => c.takeMark .quote
  | '"' => c.takeString
  | _ => c.takeWord (first :: wordOf after)

/-- Read the next token, if there is one before the end of the source. -/
def nextToken (c : Cursor) : Cursor × Except ReadFailure (Option Token) :=
  match c.skipAtmosphere with
  | (c, .error why) => (c, .error (.input why))
  | (c, .ok ()) =>
    match c.rest with
    | [] => (c, .ok none)
    | first :: after =>
      match c.takeToken first after with
      | (c, .ok token) => (c, .ok (some token))
      | (c, .error failure) => (c, .error failure)

/-! ## Every token consumes something -/

theorem pending_skipBuffered_le (c : Cursor) : c.skipBuffered.pending ≤ c.pending := by
  simp [skipBuffered]

theorem pending_skipAtmosphere_le (c : Cursor) : c.skipAtmosphere.1.pending ≤ c.pending := by
  fun_induction skipAtmosphere c with
  | case1 c skipped _ => exact pending_skipBuffered_le c
  | case2 c skipped _ c' _ hlt ih => omega
  | case3 c skipped _ c' h =>
    have hf := pending_nextLine_le skipped
    rw [h] at hf
    exact Nat.le_trans hf (pending_skipBuffered_le c)
  | case4 c skipped _ c' why h =>
    have hf := pending_nextLine_le skipped
    rw [h] at hf
    exact Nat.le_trans hf (pending_skipBuffered_le c)

theorem pending_advance_le (c : Cursor) (n : Nat) : (c.advance n).pending ≤ c.pending := by simp

/-- Consuming a character that is there leaves less to read. -/
theorem pending_advance_lt {c : Cursor} {first : Char} {after : List Char} (n : Nat)
    (h : c.rest = first :: after) : (c.advance (n + 1)).pending < c.pending := by
  simp only [pending, advance, h, List.drop_succ_cons, List.length_drop, List.length_cons]
  omega

theorem pending_finishString_le (start : Nat) (text : String) (escaped : Bool) (c : Cursor) :
    (c.finishString start text escaped).1.pending ≤ c.pending := by
  fun_induction finishString start text escaped c with
  | case1 => exact pending_advance_le _ _
  | case2 => exact pending_advance_le _ _
  | case3 => omega
  | case4 _ _ c _ _ _ c' h =>
    have hf := pending_nextLine_le (c.advance c.rest.length)
    rw [h] at hf
    exact Nat.le_trans hf (pending_advance_le _ _)
  | case5 _ _ c _ _ _ c' why h =>
    have hf := pending_nextLine_le (c.advance c.rest.length)
    rw [h] at hf
    exact Nat.le_trans hf (pending_advance_le _ _)

theorem takeToken_pending_lt {c : Cursor} {first : Char} {after : List Char}
    (h : c.rest = first :: after) : (c.takeToken first after).1.pending < c.pending := by
  have mark := pending_advance_lt 0 h
  unfold takeToken
  split
  · exact mark
  · exact mark
  · exact mark
  · have body := Nat.lt_of_le_of_lt (pending_finishString_le c.offset "" false (c.advance 1)) mark
    unfold takeString
    dsimp only
    split
    · next hf => rwa [hf] at body
    · next hf => rwa [hf] at body
  · have word := pending_advance_lt (wordOf after).length h
    unfold takeWord
    dsimp only
    split <;> exact word

/-- A token leaves less to read. -/
theorem nextToken_pending_lt {c c' : Cursor} {t : Token} (h : c.nextToken = (c', .ok (some t))) :
    c'.pending < c.pending := by
  have hs := pending_skipAtmosphere_le c
  unfold nextToken at h
  split at h
  · cases h
  · next skipped hk =>
    rw [hk] at hs
    split at h
    · cases h
    · next first after hr =>
      have ht := takeToken_pending_lt hr
      split at h
      · next c'' token htok =>
        rw [htok] at ht
        obtain ⟨rfl, -⟩ := Prod.mk.inj h
        exact Nat.lt_of_lt_of_le ht hs
      · cases h

end Cursor

end LispSession
