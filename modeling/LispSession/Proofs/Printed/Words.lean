import LispSession.Proofs.TokenRow
import LispSession.Proofs.Progress
import LispSession.Value.Printer
/-!
# Words on a line

How single tokens are read from the last line of a source.  `Spells text lexemes more` says that a text is taken for the
given lexemes when `more` comes behind it: a parenthesis always (`Spells.openParen`, `Spells.closeParen`), a word if
something ends it (`Spells.word`), a string whatever it holds (`Spells.string`).  Texts are put together with
`Spells.append` and `Spells.blank`.
-/
namespace LispSession

namespace Cursor

/-- The cursor is on the last line of a source that is no console, and this is what is left of the line. -/
structure OnLastLine (c : Cursor) (text : List Char) : Prop where
  rest : c.rest = text
  deliveries : c.deliveries = []
  lasting : c.lasting = none
  console : c.console = none

theorem OnLastLine.advance {c : Cursor} (text : List Char) {more : List Char}
    (h : c.OnLastLine (text ++ more)) {n : Nat} (hn : n = text.length) : (c.advance n).OnLastLine more where
  rest := by rw [Cursor.advance, h.rest, hn, List.drop_left]
  deliveries := h.deliveries
  lasting := h.lasting
  console := h.console

theorem advance_zero (c : Cursor) : c.advance 0 = c := by
  obtain ⟨name, deliveries, lasting, console, prompt, rest, lineNumber, atEnd, recording⟩ := c
  cases recording <;> rfl

theorem Scans.append {ts us : List Token} {c stop : Cursor} {c' : Cursor} (h : c.Scans ts c') (h' : c'.Scans us stop) :
    c.Scans (ts ++ us) stop := by
  induction h with
  | nil => exact h'
  | cons first _ ih => exact .cons first (ih h')

end Cursor

/-- A text that starts with something to read. -/
def BeginsToken (text : List Char) : Prop := ∃ first after, text = first :: after ∧ isBlank first = false ∧ first ≠ ';'

/-- A text in front of which every word ends. -/
def EndsWord (text : List Char) : Prop := ∀ c ∈ text.head?, isDelimiter c = true

/-- Some characters, none of them a delimiter. -/
def IsWord (text : List Char) : Prop := text ≠ [] ∧ ∀ c ∈ text, isDelimiter c = false

instance (text : List Char) : Decidable (IsWord text) :=
  decidable_of_iff (text ≠ [] ∧ text.all (!isDelimiter ·) = true) (by simp [IsWord])

instance (text : List Char) : Decidable (EndsWord text) :=
  decidable_of_iff (text.head?.all isDelimiter = true) (by simp [EndsWord, Option.all_eq_true])

theorem BeginsToken.atmosphere {text : List Char} (h : BeginsToken text) (more : List Char) :
    atmosphere (text ++ more) = 0 := by
  obtain ⟨first, after, rfl, hblank, hcomment⟩ := h
  simp [LispSession.atmosphere, atmosphereFrom, hblank, hcomment]

theorem IsWord.starts {word : List Char} (h : IsWord word) : BeginsToken word := by
  obtain ⟨first, after, rfl⟩ := List.exists_cons_of_ne_nil h.1
  have hfirst := h.2 first (by simp)
  simp only [isDelimiter, Bool.or_eq_false_iff, beq_eq_false_iff_ne] at hfirst
  exact ⟨first, after, rfl, hfirst.1.1.1.1.1, hfirst.2⟩

namespace Cursor

theorem nextToken_of_starts {c : Cursor} {first : Char} {after : List Char}
    (hr : c.skipBuffered.rest = first :: after) :
    c.nextToken = ((c.skipBuffered.takeToken first after).1, (c.skipBuffered.takeToken first after).2.map some) := by
  have hbuffered : c.skipBuffered.hasBuffered = true := by simp [hasBuffered, hr]
  rw [nextToken, skipAtmosphere_of_hasBuffered hbuffered]
  simp only [hr]
  rcases c.skipBuffered.takeToken first after with ⟨c', failure | token⟩ <;> rfl

theorem takeToken_of_word {first : Char} (h : isDelimiter first = false) (c : Cursor) (after : List Char) :
    c.takeToken first after = c.takeWord (first :: wordOf after) := by
  unfold takeToken
  split <;> first | rfl | exact absurd h (by decide)

theorem skipBuffered_of_starts {c : Cursor} {text more : List Char} (h : c.rest = text ++ more)
    (hs : BeginsToken text) :
    c.skipBuffered = c := by
  rw [skipBuffered, h, hs.atmosphere, advance_zero]

theorem nextToken_blank {c : Cursor} {text more : List Char} (h : c.rest = ' ' :: (text ++ more))
    (hs : BeginsToken text) :
    c.nextToken = (c.advance 1).nextToken := by
  have hrest : (c.advance 1).rest = text ++ more := by rw [advance, h]; rfl
  have hskip : c.skipBuffered = c.advance 1 := by
    obtain ⟨first, after, rfl, hblank, hcomment⟩ := hs
    have hone : LispSession.atmosphere (' ' :: (first :: after ++ more)) = 1 := by
      simp [LispSession.atmosphere, atmosphereFrom, isBlank.eq_def ' ', hblank, hcomment]
    rw [skipBuffered, h, hone]
  have hstay := skipBuffered_of_starts hrest hs
  obtain ⟨first, after, rfl, -, -⟩ := hs
  rw [nextToken_of_starts (c := c) (hskip ▸ hrest), nextToken_of_starts (c := c.advance 1) (hstay.symm ▸ hrest), hskip,
    hstay]

end Cursor

/-! ## Escapes -/

theorem scanString_escapedChar (c : Char) (cs : List Char) (text : String) (taken : Nat) :
    scanString text false taken (escapedChar c ++ cs) =
      scanString (text.push c) false (taken + (escapedChar c).length) cs := by
  unfold escapedChar
  split
  · rfl
  · rfl
  · rfl
  · rfl
  · rfl
  · next hquote hbackslash _ _ _ =>
    have hquote' : (c == '"') = false := by simpa using hquote
    have hbackslash' : (c == '\\') = false := by simpa using hbackslash
    simp [scanString, hquote', hbackslash']

/-- The escapes of a string are undone, up to its closing quotation mark. -/
theorem scanString_escaped (more : List Char) : ∀ (cs : List Char) (text : String) (taken : Nat),
    scanString text false taken (cs.flatMap escapedChar ++ '"' :: more) =
      .closed (taken + (cs.flatMap escapedChar).length + 1) (text ++ String.ofList cs)
  | [], text, taken => by simp [scanString]
  | c :: cs, text, taken => by
    have htext : text.push c ++ String.ofList cs = text ++ String.ofList (c :: cs) := by
      rw [← String.toList_inj]
      simp
    rw [List.flatMap_cons, List.append_assoc, scanString_escapedChar, scanString_escaped more cs, htext,
      List.length_append, Nat.add_assoc taken]

/-! ## Texts and the lexemes they are taken for -/

/-- On the last line of a source the text is taken for these lexemes, `more` being left behind it. -/
def Spells (text : List Char) (lexemes : List Lexeme) (more : List Char) : Prop :=
  ∀ c : Cursor, c.OnLastLine (text ++ more) →
    ∃ ts c', c.Scans ts c' ∧ ts.map Token.lexeme = lexemes ∧ c'.OnLastLine more

namespace Spells

variable {text : List Char} {lexemes : List Lexeme} {more : List Char}

theorem append {text' : List Char} {lexemes' : List Lexeme} (h : Spells text lexemes (text' ++ more))
    (h' : Spells text' lexemes' more) : Spells (text ++ text') (lexemes ++ lexemes') more := by
  intro c hc
  rw [List.append_assoc] at hc
  obtain ⟨ts, c₁, hscan, hts, hc₁⟩ := h c hc
  obtain ⟨us, c₂, hscan', hus, hc₂⟩ := h' c₁ hc₁
  exact ⟨ts ++ us, c₂, hscan.append hscan', by rw [List.map_append, hts, hus], hc₂⟩

theorem blank (hs : BeginsToken text) (hne : lexemes ≠ []) (h : Spells text lexemes more) :
    Spells (' ' :: text) lexemes more := by
  intro c hc
  obtain ⟨ts, c', hscan, hts, hc'⟩ := h (c.advance 1) (hc.advance [' '] rfl)
  cases hscan with
  | nil => exact absurd hts.symm hne
  | cons first later =>
    rw [← Cursor.nextToken_blank hc.rest hs] at first
    exact ⟨_, c', .cons first later, hts, hc'⟩

theorem single {lexeme : Lexeme} (hs : BeginsToken text)
    (h : ∀ c : Cursor, c.OnLastLine (text ++ more) → ∀ first after, text = first :: after →
      ∃ c' span, c.takeToken first (after ++ more) = (c', .ok ⟨lexeme, span⟩) ∧ c'.OnLastLine more) :
    Spells text [lexeme] more := by
  intro c hc
  have hstay := Cursor.skipBuffered_of_starts hc.rest hs
  obtain ⟨first, after, htext, -, -⟩ := hs
  obtain ⟨c', span, htake, hc'⟩ := h c hc first after htext
  have hrest : c.skipBuffered.rest = first :: (after ++ more) := by rw [hstay, hc.rest, htext]; rfl
  have htoken := Cursor.nextToken_of_starts hrest
  rw [hstay, htake] at htoken
  exact ⟨[⟨lexeme, span⟩], c', .cons htoken .nil, rfl, hc'⟩

theorem mark {lexeme : Lexeme} {m : Char} (hs : BeginsToken [m])
    (h : ∀ (c : Cursor) after, c.takeToken m after = c.takeMark lexeme) : Spells [m] [lexeme] more := by
  refine single hs fun c hc first after htext => ?_
  obtain ⟨rfl, rfl⟩ := List.cons.inj htext
  rw [h]
  exact ⟨_, _, rfl, hc.advance _ rfl⟩

theorem openParen : Spells ['('] [.openParen] more := mark ⟨'(', [], rfl, by decide, by decide⟩ fun _ _ => rfl

theorem closeParen : Spells [')'] [.closeParen] more := mark ⟨')', [], rfl, by decide, by decide⟩ fun _ _ => rfl

/-- **A word is taken for what it says** where something ends it. -/
theorem word {lexeme : Lexeme} (hw : IsWord text) (hl : classifyWord text = some lexeme) (hmore : EndsWord more) :
    Spells text [lexeme] more := by
  refine single hw.starts fun c hc first after htext => ?_
  subst htext
  have hword : wordOf (after ++ more) = after := by
    have hstop : more.takeWhile (fun c => !isDelimiter c) = [] := by
      cases more with
      | nil => rfl
      | cons d ds => simp [hmore d rfl]
    rw [wordOf, List.takeWhile_append_of_pos (fun c hc => by simp [hw.2 c (by simp [hc])]), hstop, List.append_nil]
  rw [Cursor.takeToken_of_word (hw.2 first (by simp)), hword, Cursor.takeWord, hl]
  exact ⟨_, _, rfl, hc.advance _ rfl⟩

/-- **A string is taken for what it holds**, whatever that is. -/
theorem string (text : String) : Spells (stringText text).toList [.str text] more := by
  have htext : (stringText text).toList = '"' :: (text.toList.flatMap escapedChar ++ ['"']) := by
    rw [stringText, String.toList_ofList]
    rfl
  rw [htext]
  refine single ⟨'"', _, rfl, by decide, by decide⟩ fun c hc first after h => ?_
  obtain ⟨rfl, rfl⟩ := List.cons.inj h
  have hinside : (c.advance 1).OnLastLine (text.toList.flatMap escapedChar ++ ['"'] ++ more) := hc.advance ['"'] rfl
  have hscan := scanString_escaped more text.toList "" 0
  rw [← List.singleton_append, ← List.append_assoc, ← hinside.rest, String.ofList_toList, String.empty_append] at hscan
  rw [Cursor.takeToken, Cursor.takeString, Cursor.finishString, hscan]
  exact ⟨_, _, rfl, hinside.advance _ (by simp)⟩

end Spells

end LispSession
