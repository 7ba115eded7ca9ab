import LispSession.Proofs.Lexing.WholeText
import Mathlib.Data.List.Chain
/-!
# Lexing line by line

A cursor gets its text in lines, but what it finds there does not depend on them.  `Cursor.InDatum` says what is left of
a text: the rest of the current line and the lines behind it, where only the last line may lack its line end.  As a line
end is blank, no word goes over one; comments end there; and a string that reaches one is followed into the next line.
So each token is the next piece of the text as a whole (`InDatum.nextToken`), and with it all tokens are
(`InDatum.scanAll`).
-/
namespace LispSession

namespace Cursor

/-! ## Asking for tokens until there are none -/

theorem nextToken_pending_lt_of_text {c c' : Cursor} {error : SyntaxError} {excerpt : Excerpt}
    (h : c.nextToken = (c', .error (.text error excerpt))) : c'.pending < c.pending := by
  have hskip := pending_skipAtmosphere_le c
  unfold nextToken at h
  split at h
  · cases h
  · next skipped hs =>
    rw [hs] at hskip
    split at h
    · cases h
    · next first after hr =>
      have htoken := takeToken_pending_lt hr
      split at h
      · cases h
      · next c'' failure ht =>
        rw [ht] at htoken
        obtain ⟨rfl, -⟩ := Prod.mk.inj h
        exact Nat.lt_of_lt_of_le htoken hskip

/-- All tokens up to the end of the source.  A syntax error is passed over, but a source that fails is left there. -/
def scanAll (c : Cursor) : List (Except ReadFailure Token) :=
  match h : c.nextToken with
  | (_, .ok none) => []
  | (c', .ok (some t)) =>
    have : c'.pending < c.pending := nextToken_pending_lt h
    .ok t :: c'.scanAll
  | (c', .error (.text error excerpt)) =>
    have : c'.pending < c.pending := nextToken_pending_lt_of_text h
    .error (.text error excerpt) :: c'.scanAll
  | (_, .error (.input why)) => [.error (.input why)]
termination_by c.pending

end Cursor

/-- What has been seen of a datum that began on the given line, as diagnostics show it. -/
def excerptOf (line : Nat) (seen : List Char) : Excerpt := ⟨Source.codeName ++ ":" ++ toString line, String.ofList seen⟩

/-! ## Where a cursor stands in a text -/

/-- Nothing of a line is left, or it has its line end. -/
def EndsLine (line : List Char) : Prop := ∀ c ∈ line.getLast?, c = '\n'

theorem EndsLine.of_append {front rest : List Char} (h : EndsLine (front ++ rest)) : EndsLine rest := by
  intro c hc
  refine h c ?_
  rw [List.getLast?_append, Option.mem_def.1 hc]
  rfl

namespace Cursor

/-- This much of a text given in full is left: the rest of the current line, and the lines behind it, none of them
empty.  Only the last line may lack its line end. -/
structure Before (c : Cursor) (ahead : List Char) : Prop where
  name : c.name = Source.codeName
  lines : ∃ later : List (List Char), c.deliveries = later.map .line ∧ ahead = c.rest ++ later.flatten ∧ [] ∉ later ∧
    (c.rest :: later).IsChain fun line _ => EndsLine line
  lasting : c.lasting = none
  console : c.console = none
  atEnd : c.atEnd = true → c.deliveries = []

/-- A datum is open that began on the given line, and `seen` has been consumed of it. -/
structure InDatum (c : Cursor) (line : Nat) (seen ahead : List Char) : Prop extends Before c ahead where
  recording : ∃ r, c.recording = some r ∧ r.consumed = seen.reverse ∧ r.firstLine = line

theorem Before.advance {c : Cursor} {piece more : List Char} (h : c.Before (piece ++ more))
    (hr : piece <+: c.rest) {n : Nat} (hn : n = piece.length) : (c.advance n).Before more := by
  subst hn
  obtain ⟨left, hleft⟩ := hr
  obtain ⟨later, hdeliveries, hahead, hempty, hlines⟩ := h.lines
  have hrest : (c.advance piece.length).rest = left := by rw [Cursor.advance, ← hleft, List.drop_left]
  refine ⟨h.name, ⟨later, hdeliveries, ?_, hempty, ?_⟩, h.lasting, h.console, h.atEnd⟩
  · rw [← hleft, List.append_assoc] at hahead
    rw [hrest]
    exact List.append_cancel_left hahead
  · rw [hrest]
    cases later with
    | nil => exact .singleton _
    | cons next later =>
      rw [← hleft, List.isChain_cons_cons] at hlines
      exact List.isChain_cons_cons.2 ⟨hlines.1.of_append, hlines.2⟩

/-- What is left of the line is in front of what is left of the text, and ends its line unless nothing follows. -/
theorem Before.line {c : Cursor} {ahead : List Char} (h : c.Before ahead) :
    ∃ more, ahead = c.rest ++ more ∧ (EndsLine c.rest ∨ more = []) := by
  obtain ⟨later, -, hahead, -, hlines⟩ := h.lines
  refine ⟨later.flatten, hahead, ?_⟩
  cases later with
  | nil => exact .inr rfl
  | cons next later => exact .inl (List.isChain_cons_cons.1 hlines).1

/-- Fetching a line, the current one being used up, leaves the text as it is. -/
theorem Before.nextLine {c : Cursor} {ahead : List Char} (h : c.Before ahead) (hr : c.rest = []) :
    (∃ c', c.nextLine = (c', .ok true) ∧ c'.Before ahead ∧ c'.recording = c.recording ∧ c'.rest ≠ [] ∧
      c'.lineNumber = c.lineNumber + 1) ∨
    (ahead = [] ∧ ∃ c', c.nextLine = (c', .ok false) ∧ c'.Before ahead ∧ c'.recording = c.recording) := by
  obtain ⟨later, hdeliveries, hahead, hempty, hlines⟩ := h.lines
  rw [hr, List.nil_append] at hahead
  have hshow : c.showPrompt = (c, none) := by
    unfold showPrompt
    rw [h.console]
  cases later with
  | nil =>
    refine .inr ⟨hahead, ?_⟩
    by_cases hend : c.atEnd = true
    · exact ⟨c, by rw [Cursor.nextLine, if_pos hend], h, rfl⟩
    · rw [Cursor.nextLine, if_neg hend, hshow]
      dsimp only
      rw [takeDelivery, hdeliveries, List.map_nil, h.lasting]
      exact ⟨_, rfl, ⟨h.name, ⟨[], rfl, hahead, nofun, .singleton _⟩, rfl, h.console, fun _ => rfl⟩, rfl⟩
  | cons next later =>
    have hend : ¬c.atEnd = true := fun hend => by simpa [hdeliveries] using h.atEnd hend
    rw [Cursor.nextLine, if_neg hend, hshow]
    dsimp only
    rw [takeDelivery, hdeliveries, List.map_cons]
    rw [List.mem_cons, not_or] at hempty
    have hlater := (List.isChain_cons_cons.1 hlines).2
    exact .inl ⟨_, rfl,
      ⟨h.name, ⟨later, rfl, hahead, hempty.2, hlater⟩, h.lasting, h.console, fun h' => absurd h' hend⟩, rfl,
      Ne.symm hempty.1, rfl⟩

namespace InDatum

variable {c : Cursor} {line : Nat} {seen ahead : List Char}

theorem offset (h : c.InDatum line seen ahead) : c.offset = utf8Length seen := by
  obtain ⟨r, hr, hseen, -⟩ := h.recording
  rw [Cursor.offset, hr]
  simp only [r.offset_eq, hseen, utf8Length_reverse]

theorem reject (h : c.InDatum line seen ahead) (error : SyntaxError) :
    c.reject error = .text error (excerptOf line seen) := by
  obtain ⟨r, hr, hseen, hfirst⟩ := h.recording
  rw [Cursor.reject, excerpt, hr]
  simp only [Recording.text, hseen, hfirst, h.name, List.reverse_reverse, excerptOf]

theorem advance {piece more : List Char} (h : c.InDatum line seen (piece ++ more)) (hr : piece <+: c.rest) {n : Nat}
    (hn : n = piece.length) : (c.advance n).InDatum line (seen ++ piece) more := by
  obtain ⟨r, hrecording, hseen, hfirst⟩ := h.recording
  refine ⟨h.toBefore.advance hr hn, r.append (c.rest.take n), by rw [Cursor.advance, hrecording]; rfl, ?_, hfirst⟩
  obtain ⟨left, hleft⟩ := hr
  have hconsumed : (r.append (c.rest.take n)).consumed = (c.rest.take n).reverse ++ r.consumed := List.reverseAux_eq
  rw [hconsumed, hseen, hn, ← hleft, List.take_left, List.reverse_append]

/-- Fetching a line leaves the text and the open datum as they are. -/
theorem nextLine (h : c.InDatum line seen ahead) (hr : c.rest = []) :
    (∃ c', c.nextLine = (c', .ok true) ∧ c'.InDatum line seen ahead) ∨
    (ahead = [] ∧ ∃ c', c.nextLine = (c', .ok false) ∧ c'.InDatum line seen ahead) := by
  obtain ⟨c', hline, hc', hrecording, -⟩ | ⟨hahead, c', hline, hc', hrecording⟩ := h.toBefore.nextLine hr
  · exact .inl ⟨c', hline, hc', hrecording ▸ h.recording⟩
  · exact .inr ⟨hahead, c', hline, hc', hrecording ▸ h.recording⟩

end InDatum

end Cursor

/-! ## Blanks and comments -/

/-- The blanks and comments in front of a text that may begin inside a comment. -/
def gapFrom (comment : Bool) (text : List Char) : List Char :=
  if comment then text.takeWhile (· ≠ '\n') ++ gapOf (text.dropWhile (· ≠ '\n')) else gapOf text

theorem gapFrom_cons (comment : Bool) (c : Char) (cs : List Char) :
    gapFrom comment (c :: cs) =
      if comment then c :: gapFrom (c != '\n') cs
      else if c == ';' then c :: gapFrom true cs
      else if isBlank c then c :: gapFrom false cs
      else [] := by
  cases comment with
  | false =>
    simp only [gapFrom, Bool.false_eq_true, if_false, if_true, gapOf, beq_iff_eq]
  | true =>
    by_cases hc : c = '\n'
    · subst hc
      simp [gapFrom, gapOf_blank (show isBlank '\n' = true by decide)]
    · simp [gapFrom, hc]

/-- The atmosphere in front of a line, `n` characters of it being counted already, is `gap` in the text as a whole if
something else stands on the line; if nothing does, it is the line and what is to be skipped behind it. -/
def GapReaches (n reached : Nat) (line gap behind : List Char) (ended : Prop) : Prop :=
  ∃ k ≤ line.length, reached = n + k ∧ (k < line.length → gap = line.take k) ∧
    (k = line.length → ended → gap = line ++ behind)

theorem atmosphereFrom_reaches (line more : List Char) : ∀ (comment : Bool) (n : Nat),
    GapReaches n (atmosphereFrom n comment line) line (gapFrom comment (line ++ more)) (gapOf more)
      (more = [] ∨ EndsLine line ∧ (line = [] → comment = false)) := by
  induction line with
  | nil =>
    intro comment n
    refine ⟨0, Nat.le_refl _, rfl, fun hlt => absurd hlt (Nat.lt_irrefl 0), fun _ hover => ?_⟩
    obtain rfl | ⟨-, hcomment⟩ := hover
    · cases comment <;> simp [gapFrom, gapOf_nil]
    · rw [hcomment rfl]
      rfl
  | cons c cs ih =>
    intro comment n
    -- One character more is skipped; the line may end with it only if it is the line end, which ends comments too.
    have skip (comment' : Bool) (hlast : c = '\n' → comment' = false) :
        GapReaches n (atmosphereFrom (n + 1) comment' cs) (c :: cs) (c :: gapFrom comment' (cs ++ more)) (gapOf more)
          (more = [] ∨ EndsLine (c :: cs) ∧ (c :: cs = [] → comment = false)) := by
      obtain ⟨k, hk, hreached, hfound, hover⟩ := ih comment' (n + 1)
      refine ⟨k + 1, Nat.succ_le_succ hk, by omega, fun hlt => ?_, fun heq hends => ?_⟩
      · rw [hfound (Nat.lt_of_succ_lt_succ hlt), List.take_succ_cons]
      · rw [hover (Nat.succ_inj.1 heq) (hends.imp_right fun hends => ?_)]
        · rfl
        · exact ⟨@EndsLine.of_append [c] cs hends.1, fun hcs => hlast (hends.1 c (by rw [hcs]; rfl))⟩
    rw [atmosphereFrom, List.cons_append, gapFrom_cons]
    cases comment with
    | true => exact skip (c != '\n') (by simp)
    | false =>
      rw [if_neg Bool.false_ne_true, if_neg Bool.false_ne_true]
      by_cases hcomment : (c == ';') = true
      · rw [if_pos hcomment, if_pos hcomment]
        refine skip true ?_
        rintro rfl
        exact absurd hcomment (by decide)
      · rw [if_neg hcomment, if_neg hcomment]
        by_cases hblank : isBlank c = true
        · rw [if_pos hblank, if_pos hblank]
          exact skip false fun _ => rfl
        · rw [if_neg hblank, if_neg hblank]
          exact ⟨0, Nat.zero_le _, rfl, fun _ => rfl, fun hzero => absurd hzero.symm (Nat.succ_ne_zero _)⟩

/-- The atmosphere of a line and that of the text: up to something on the line, or over the whole line. -/
theorem atmosphere_cases {line more : List Char} (h : EndsLine line ∨ more = []) :
    (∃ gap after, line = gap ++ after ∧ after ≠ [] ∧ atmosphere line = gap.length ∧ gapOf (line ++ more) = gap) ∨
    (atmosphere line = line.length ∧ gapOf (line ++ more) = line ++ gapOf more) := by
  obtain ⟨k, hk, hreached, hfound, hover⟩ := atmosphereFrom_reaches line more false 0
  rw [Nat.zero_add] at hreached
  by_cases hlt : k < line.length
  · refine .inl ⟨line.take k, line.drop k, (List.take_append_drop k line).symm, by simpa using hlt, ?_, hfound hlt⟩
    rw [List.length_take_of_le hk]
    exact hreached
  · have heq : k = line.length := by omega
    exact .inr ⟨heq ▸ hreached, hover heq (h.symm.imp_right fun hline => ⟨hline, fun _ => rfl⟩)⟩

namespace Cursor

/-- Skipping what is blank or comment on the current line goes up to something else on the line, or to its end. -/
theorem Before.skipBuffered {c : Cursor} {ahead : List Char} (h : c.Before ahead) :
    (∃ gap after more, c.rest = gap ++ after ∧ after ≠ [] ∧ ahead = gap ++ more ∧ gapOf ahead = gap ∧
      c.skipBuffered = c.advance gap.length) ∨
    (∃ more, ahead = c.rest ++ more ∧ gapOf ahead = c.rest ++ gapOf more ∧
      c.skipBuffered = c.advance c.rest.length) := by
  obtain ⟨later, rfl, hline⟩ := h.line
  obtain ⟨gap, after, hrest, hne, hn, hgap⟩ | ⟨hn, hgap⟩ := atmosphere_cases hline
  · exact .inl ⟨gap, after, after ++ later, hrest, hne, by rw [hrest, List.append_assoc],
      hgap, by rw [Cursor.skipBuffered, hn]⟩
  · exact .inr ⟨later, rfl, hgap, by rw [Cursor.skipBuffered, hn]⟩

theorem rest_advance {c : Cursor} {piece after : List Char} (h : c.rest = piece ++ after) :
    (c.advance piece.length).rest = after := by
  rw [Cursor.advance, h, List.drop_left]

theorem rest_advance_all (c : Cursor) : (c.advance c.rest.length).rest = [] := rest_advance (List.append_nil _).symm

theorem skipAtmosphere_of_nextLine {c c' : Cursor} {found : Bool} (hr : c.skipBuffered.rest = [])
    (h : c.skipBuffered.nextLine = (c', .ok found)) :
    c.skipAtmosphere = if found then c'.skipAtmosphere else (c', .ok ()) := by
  have hbuffered : c.skipBuffered.hasBuffered = false := by simp [hasBuffered, hr]
  rw [Cursor.skipAtmosphere]
  simp only [hbuffered, Bool.false_eq_true, if_false]
  split
  · next h' => cases h.symm.trans h'; rfl
  · next h' => cases h.symm.trans h'; rfl
  · next h' => cases h.symm.trans h'

/-- **Skipping blanks and comments line by line skips those of the text.** -/
theorem InDatum.skipAtmosphere {c : Cursor} {line : Nat} {seen ahead : List Char} (h : c.InDatum line seen ahead) :
    ∃ c' gap more, c.skipAtmosphere = (c', .ok ()) ∧ ahead = gap ++ more ∧ gapOf ahead = gap ∧
      c'.InDatum line (seen ++ gap) more ∧ (c'.rest = [] → more = []) := by
  obtain ⟨gap, after, more, hrest, hne, rfl, hgap, hskip⟩ | ⟨more, rfl, hgap, hskip⟩ := h.toBefore.skipBuffered
  · have hskipped := h.advance ⟨after, hrest.symm⟩ rfl
    have hr := rest_advance hrest
    rw [← hskip] at hskipped hr
    have hbuffered : c.skipBuffered.hasBuffered = true := by simpa [hasBuffered, hr] using hne
    exact ⟨_, gap, more, skipAtmosphere_of_hasBuffered hbuffered, rfl, hgap, hskipped,
      fun hr' => absurd (hr.symm.trans hr') hne⟩
  · -- The line is used up: what is left of the gap is in front of the next one.
    have hskipped := h.advance List.prefix_rfl rfl
    have hused := c.rest_advance_all
    rw [← hskip] at hskipped hused
    obtain ⟨c', hline, hc'⟩ | ⟨rfl, c', hline, hc'⟩ := hskipped.nextLine hused
    · have less : c'.pending < c.pending := Nat.lt_of_lt_of_le (pending_nextLine_lt hline) (pending_skipBuffered_le c)
      obtain ⟨c'', gap, more', hskip, rfl, hgap', hc'', hmore⟩ := hc'.skipAtmosphere
      rw [hgap'] at hgap
      refine ⟨c'', c.rest ++ gap, more', ?_, (List.append_assoc _ _ _).symm, hgap, ?_, hmore⟩
      · rw [skipAtmosphere_of_nextLine hused hline, if_pos rfl, hskip]
      · rwa [← List.append_assoc]
    · refine ⟨c', c.rest, [], ?_, rfl, by rw [hgap, gapOf_nil, List.append_nil], hc', fun _ => rfl⟩
      rw [skipAtmosphere_of_nextLine hused hline, if_neg Bool.false_ne_true]
termination_by c.pending

end Cursor

/-! ## Strings -/

/-- More text in front of what a string holds. -/
def StringEnd.after (held : List Char) (ended : StringEnd) : StringEnd := held.foldr StringEnd.push ended

theorem StringEnd.after_holds (held text : List Char) : StringEnd.after held (.holds text) = .holds (held ++ text) := by
  induction held with
  | nil => rfl
  | cons c cs ih => rw [after, List.foldr_cons, ← after, ih]; rfl

theorem StringEnd.after_of_push {ended : StringEnd} (h : ∀ c, ended.push c = ended) (held : List Char) :
    ended.after held = ended := by
  induction held with
  | nil => rfl
  | cons c cs ih => rw [after, List.foldr_cons, ← after, ih, h]

theorem StringEnd.after_unknownEscape (held : List Char) (e : Char) :
    StringEnd.after held (.unknownEscape e) = .unknownEscape e := after_of_push (fun _ => rfl) held

theorem StringEnd.after_missing (held : List Char) : StringEnd.after held .missing = .missing :=
  after_of_push (fun _ => rfl) held

theorem StringEnd.after_append (a b : List Char) (ended : StringEnd) :
    StringEnd.after (a ++ b) ended = StringEnd.after a (StringEnd.after b ended) := List.foldr_append

/-- The characters of a string up to its end, in a text that may begin behind a backslash. -/
def quotedFrom : Bool → List Char → List Char × StringEnd
  | false, text => quoted text
  | true, [] => ([], .missing)
  | true, e :: cs =>
    match unescape? e with
    | some c => (e :: (quoted cs).1, (quoted cs).2.push c)
    | none => ([e], .unknownEscape e)

theorem quotedFrom_nil (escaped : Bool) : quotedFrom escaped [] = ([], .missing) := by
  cases escaped <;> rfl

theorem quoted_backslash (text : List Char) :
    quoted ('\\' :: text) = ('\\' :: (quotedFrom true text).1, (quotedFrom true text).2) := by
  cases text with
  | nil => rfl
  | cons e cs =>
    rw [quoted, quotedFrom]
    cases unescape? e <;> rfl

/-- How far a string is followed on a line, `taken` characters and `text` being known already, against the string as a
whole. -/
inductive Follows (taken : Nat) (text : String) (line more : List Char) : List Char × StringEnd → StringScan → Prop
  | closed {piece after held : List Char} (hline : line = piece ++ after) :
      Follows taken text line more (piece, .holds held) (.closed (taken + piece.length) (text ++ String.ofList held))
  | unknownEscape {piece after : List Char} {e : Char} (hline : line = piece ++ after) :
      Follows taken text line more (piece, .unknownEscape e) (.unknownEscape (taken + piece.length) e)
  | unfinished {held : List Char} {escaped : Bool} :
      Follows taken text line more (line ++ (quotedFrom escaped more).1, (quotedFrom escaped more).2.after held)
        (.unfinished (text ++ String.ofList held) escaped)

/-- One character more, which adds `held` to the string. -/
theorem Follows.cons {taken : Nat} {text : String} {held cs more : List Char} {whole : List Char × StringEnd}
    {scan : StringScan} (h : Follows (taken + 1) (text ++ String.ofList held) cs more whole scan) (c : Char) :
    Follows taken text (c :: cs) more (c :: whole.1, whole.2.after held) scan := by
  cases h with
  | @closed piece after held' hline =>
    have hfollows := @Follows.closed taken text (c :: cs) more (c :: piece) after (held ++ held') (by rw [hline]; rfl)
    rw [StringEnd.after_holds]
    rwa [List.length_cons, ← Nat.add_assoc, Nat.add_right_comm, String.ofList_append, ← String.append_assoc] at hfollows
  | @unknownEscape piece after e hline =>
    have hfollows := @Follows.unknownEscape taken text (c :: cs) more (c :: piece) after e (by rw [hline]; rfl)
    rw [StringEnd.after_unknownEscape]
    rwa [List.length_cons, ← Nat.add_assoc, Nat.add_right_comm] at hfollows
  | @unfinished held' escaped =>
    have hfollows := @Follows.unfinished taken text (c :: cs) more (held ++ held') escaped
    rwa [StringEnd.after_append, String.ofList_append, ← String.append_assoc] at hfollows

/-- One character more, which adds one to the string. -/
theorem Follows.push {taken : Nat} {text : String} {d : Char} {cs more : List Char} {whole : List Char × StringEnd}
    {scan : StringScan} (h : Follows (taken + 1) (text.push d) cs more whole scan) (c : Char) :
    Follows taken text (c :: cs) more (c :: whole.1, whole.2.push d) scan := by
  have htext : text.push d = text ++ String.ofList [d] := by
    rw [← String.toList_inj]
    simp
  rw [htext] at h
  exact h.cons c

theorem scanString_follows (line more : List Char) : ∀ (text : String) (escaped : Bool) (taken : Nat),
    Follows taken text line more (quotedFrom escaped (line ++ more)) (scanString text escaped taken line) := by
  induction line with
  | nil =>
    intro text escaped taken
    have hfollows := @Follows.unfinished taken text [] more [] escaped
    rwa [String.ofList_nil, String.append_empty] at hfollows
  | cons c cs ih =>
    intro text escaped taken
    rw [scanString, List.cons_append]
    cases escaped with
    | true =>
      rw [if_pos rfl, quotedFrom]
      cases unescape? c with
      | some d => exact (ih (text.push d) false (taken + 1)).push c
      | none => exact @Follows.unknownEscape taken text (c :: cs) more [c] cs c rfl
    | false =>
      rw [if_neg Bool.false_ne_true, quotedFrom]
      by_cases hquote : c = '"'
      · subst hquote
        have hfollows := @Follows.closed taken text ('"' :: cs) more ['"'] cs [] rfl
        rwa [String.ofList_nil, String.append_empty] at hfollows
      · rw [if_neg (by simpa using hquote)]
        by_cases hbackslash : c = '\\'
        · subst hbackslash
          rw [if_pos (beq_self_eq_true _), quoted_backslash]
          have hfollows : Follows (taken + 1) (text ++ String.ofList []) cs more (quotedFrom true (cs ++ more))
              (scanString text true (taken + 1) cs) := by
            rw [String.ofList_nil, String.append_empty]
            exact ih text true (taken + 1)
          exact hfollows.cons '\\'
        · rw [if_neg (by simpa using hbackslash), quoted_plain hquote hbackslash]
          exact (ih (text.push c) false (taken + 1)).push c

/-- What reading a string, of which `text` is known, comes to: it started at `start` and was followed up to the end of
`seen`. -/
def stringResult (line : Nat) (start : Nat) (text : String) (seen : List Char) : StringEnd → Except ReadFailure String
  | .holds held => .ok (text ++ String.ofList held)
  | .unknownEscape e =>
    .error (.text (.unknownEscape e ⟨utf8Length seen - e.utf8Size, e.utf8Size⟩) (excerptOf line seen))
  | .missing => .error (.text (.unterminatedString (.between start (utf8Length seen))) (excerptOf line seen))

theorem quotedFrom_unknownEscape {escaped : Bool} {text piece : List Char} {e : Char}
    (h : quotedFrom escaped text = (piece, .unknownEscape e)) : ∃ body, piece = body ++ [e] := by
  cases escaped with
  | false =>
    obtain ⟨body, hbody⟩ := (quoted_cut text).unknownEscape e (congrArg Prod.snd h)
    exact ⟨body, (congrArg Prod.fst h).symm.trans hbody⟩
  | true =>
    cases text with
    | nil => cases h
    | cons e' cs =>
      rw [quotedFrom] at h
      cases hescape : unescape? e' with
      | none =>
        rw [hescape] at h
        cases h
        exact ⟨[], rfl⟩
      | some c =>
        rw [hescape] at h
        obtain ⟨body, hbody⟩ := (quoted_cut cs).unknownEscape e (StringEnd.push_eq_unknownEscape (congrArg Prod.snd h))
        have hpiece : e' :: (quoted cs).1 = piece := congrArg Prod.fst h
        exact ⟨e' :: body, by rw [← hpiece, hbody]; rfl⟩

theorem stringResult_after (line : Nat) (start : Nat) (text : String) (seen held : List Char) (ended : StringEnd) :
    stringResult line start (text ++ String.ofList held) seen ended =
      stringResult line start text seen (ended.after held) := by
  cases ended with
  | holds text' => rw [StringEnd.after_holds, stringResult, stringResult, String.ofList_append, String.append_assoc]
  | unknownEscape e => rw [StringEnd.after_unknownEscape]; rfl
  | missing => rw [StringEnd.after_missing]; rfl

namespace Cursor

theorem finishString_of_nextLine {c c' : Cursor} {start : Nat} {text text' : String} {escaped escaped' found : Bool}
    (hscan : scanString text escaped 0 c.rest = .unfinished text' escaped')
    (h : (c.advance c.rest.length).nextLine = (c', .ok found)) :
    c.finishString start text escaped =
      if found then c'.finishString start text' escaped'
      else (c', .error (c'.reject (.unterminatedString (.between start c'.offset)))) := by
  rw [Cursor.finishString]
  split
  · next hscan' => cases hscan.symm.trans hscan'
  · next hscan' => cases hscan.symm.trans hscan'
  · next hscan' =>
    cases hscan.symm.trans hscan'
    split
    · next h' => cases h.symm.trans h'; rfl
    · next h' => cases h.symm.trans h'; rfl
    · next h' => cases h.symm.trans h'

/-- **Reading a string line by line reads it from the text.** -/
theorem InDatum.finishString {c : Cursor} {line : Nat} {seen ahead : List Char}
    (h : c.InDatum line seen ahead) (start : Nat) (text : String) (escaped : Bool) :
    ∃ c' piece more ended, quotedFrom escaped ahead = (piece, ended) ∧ ahead = piece ++ more ∧
      c.finishString start text escaped = (c', stringResult line start text (seen ++ piece) ended) ∧
      c'.InDatum line (seen ++ piece) more := by
  obtain ⟨later, rfl, -⟩ := h.line
  have hfollows := scanString_follows c.rest later text escaped 0
  generalize hscan : scanString text escaped 0 c.rest = scan at hfollows
  generalize hwhole : quotedFrom escaped (c.rest ++ later) = whole at hfollows
  have hadvance {piece after : List Char} (hline : c.rest = piece ++ after) :
      (c.advance (0 + piece.length)).InDatum line (seen ++ piece) (after ++ later) := by
    rw [hline, List.append_assoc] at h
    exact h.advance ⟨after, hline.symm⟩ (Nat.zero_add _)
  cases hfollows with
  | @closed piece after held hline =>
    have hc' := hadvance hline
    refine ⟨_, piece, after ++ later, .holds held, rfl, by rw [hline, List.append_assoc], ?_, hc'⟩
    rw [Cursor.finishString, hscan]
    rfl
  | @unknownEscape piece after e hline =>
    have hc' := hadvance hline
    refine ⟨_, piece, after ++ later, .unknownEscape e, rfl, by rw [hline, List.append_assoc], ?_, hc'⟩
    obtain ⟨body, rfl⟩ := quotedFrom_unknownEscape hwhole
    have hsize : e.utf8Size ≤ utf8Length (seen ++ (body ++ [e])) := by
      simp only [utf8Length_append, utf8Length_cons, utf8Length_nil]
      omega
    rw [Cursor.finishString, hscan]
    dsimp only
    rw [hc'.reject, hc'.offset, stringResult, Span.stepBack, if_pos hsize, Span.between, Nat.sub_sub_self hsize]
  | @unfinished held escaped' =>
    have hused := h.advance List.prefix_rfl rfl
    obtain ⟨c', hline, hc'⟩ | ⟨rfl, c', hline, hc'⟩ := hused.nextLine c.rest_advance_all
    · have less : c'.pending < c.pending := Nat.lt_of_lt_of_le (pending_nextLine_lt hline) (pending_advance_le c _)
      obtain ⟨c'', piece, more, ended, hpiece, rfl, hresult, hc''⟩ :=
        hc'.finishString start (text ++ String.ofList held) escaped'
      refine ⟨c'', c.rest ++ piece, more, ended.after held, by rw [hpiece], (List.append_assoc _ _ _).symm, ?_, ?_⟩
      · rw [finishString_of_nextLine hscan hline, if_pos rfl, hresult, stringResult_after, List.append_assoc]
      · rwa [← List.append_assoc]
    · rw [quotedFrom_nil, StringEnd.after_missing]
      refine ⟨c', c.rest, [], .missing, by rw [List.append_nil], rfl, ?_, hc'⟩
      rw [finishString_of_nextLine hscan hline, if_neg Bool.false_ne_true, hc'.reject, hc'.offset, stringResult]
termination_by c.pending

end Cursor

/-! ## Tokens -/

/-- A lexical error as a cursor reports it, in a datum that began on the given line. -/
def LexicalError.failure (line : Nat) (e : LexicalError) : ReadFailure := .text e.error (excerptOf line e.seen)

theorem pieceAt_eq {seen : List Char} {first : Char} {after piece more : List Char}
    {meaning : Except SyntaxError Lexeme} (hcut : firstPiece (utf8Length seen) first after = (piece, meaning))
    (hmore : first :: after = piece ++ more) :
    pieceAt seen first after = ⟨itemAt seen piece meaning, seen ++ piece, more⟩ := by
  rw [pieceAt, hcut, hmore]
  simp only [List.drop_left]

/-- No word goes over the end of a line. -/
theorem wordOf_line {first : Char} {after more : List Char} (hfirst : isDelimiter first = false)
    (h : EndsLine (first :: after) ∨ more = []) : wordOf after = (after ++ more).takeWhile (!isDelimiter ·) := by
  rw [wordOf, List.takeWhile_append]
  split
  · next hlength =>
    have hall : after.takeWhile (!isDelimiter ·) = after := (List.takeWhile_prefix _).eq_of_length hlength
    obtain hline | rfl := h
    · -- The line end is the last character of the line, and neither blank nor a delimiter is left.
      exfalso
      cases hlast : after.getLast? with
      | none =>
        obtain rfl := List.getLast?_eq_none_iff.1 hlast
        obtain rfl := hline first rfl
        exact absurd hfirst (by decide)
      | some c =>
        have hc : c ∈ after.takeWhile (!isDelimiter ·) := hall.symm ▸ List.mem_of_getLast? hlast
        obtain rfl := hline c (by rw [List.getLast?_cons, hlast]; rfl)
        exact absurd (List.mem_takeWhile_imp hc) (by decide)
    · rw [hall, List.takeWhile_nil, List.append_nil]
  · rfl

namespace Cursor

theorem InDatum.token {c : Cursor} {line : Nat} {seen piece ahead : List Char}
    (h : c.InDatum line (seen ++ piece) ahead) (lexeme : Lexeme) :
    c.token (utf8Length seen) lexeme = ⟨lexeme, utf8Length seen, utf8Length piece⟩ := by
  rw [Cursor.token, h.offset, Span.between, utf8Length_append, Nat.add_sub_cancel_left]

theorem InDatum.takeMark {c : Cursor} {line : Nat} {seen : List Char} {m : Char} {after more : List Char}
    (h : c.InDatum line seen (m :: more)) (hr : c.rest = m :: after) (lexeme : Lexeme) :
    ∃ c', c.takeMark lexeme = (c', .ok ⟨lexeme, utf8Length seen, utf8Length [m]⟩) ∧
      c'.InDatum line (seen ++ [m]) more := by
  have hc' : (c.advance 1).InDatum line (seen ++ [m]) more := h.advance (show [m] <+: c.rest from ⟨after, hr.symm⟩) rfl
  refine ⟨c.advance 1, ?_, hc'⟩
  rw [Cursor.takeMark, h.offset, hc'.token]

theorem InDatum.takeWord {c : Cursor} {line : Nat} {seen word more : List Char} (h : c.InDatum line seen (word ++ more))
    (hr : word <+: c.rest) : ∃ c', c.takeWord word =
        (c', (itemAt seen word (wordPiece (utf8Length seen) word).2).mapError (·.failure line)) ∧
      c'.InDatum line (seen ++ word) more := by
  have hc' := h.advance hr rfl
  refine ⟨_, ?_, hc'⟩
  rw [Cursor.takeWord, h.offset, wordPiece]
  cases classifyWord word with
  | some lexeme =>
    dsimp only
    rw [hc'.token]
    rfl
  | none =>
    dsimp only
    rw [hc'.reject, Span.between, Nat.add_sub_cancel_left]
    rfl

theorem InDatum.takeString {c : Cursor} {line : Nat} {seen after more : List Char}
    (h : c.InDatum line seen ('"' :: more)) (hr : c.rest = '"' :: after) :
    ∃ c' left, more = (quoted more).1 ++ left ∧
      c.takeString =
        (c', (itemAt seen ('"' :: (quoted more).1) (stringPiece (utf8Length seen) more).2).mapError (·.failure line)) ∧
      c'.InDatum line (seen ++ '"' :: (quoted more).1) left := by
  have hinside : (c.advance 1).InDatum line (seen ++ ['"']) more :=
    h.advance (show ['"'] <+: c.rest from ⟨after, hr.symm⟩) rfl
  obtain ⟨c', piece, left, ended, hquoted, hmore, hfinish, hc'⟩ := hinside.finishString (utf8Length seen) "" false
  rw [quotedFrom] at hquoted
  rw [← List.append_cons] at hfinish hc'
  rw [Cursor.takeString, h.offset, hfinish, stringPiece, hquoted]
  refine ⟨c', left, hmore, ?_, hc'⟩
  cases ended with
  | holds text =>
    rw [stringResult, String.empty_append]
    dsimp only
    rw [hc'.token]
    rfl
  | unknownEscape e =>
    obtain ⟨body, rfl⟩ := @quotedFrom_unknownEscape false _ _ _ hquoted
    have hlast : ('"' :: (body ++ [e])).dropLast = '"' :: body := by rw [← List.cons_append, List.dropLast_concat]
    have hstart : utf8Length (seen ++ '"' :: (body ++ [e])) - e.utf8Size =
        utf8Length seen + utf8Length ('"' :: body) := by
      simp only [utf8Length_append, utf8Length_cons, utf8Length_nil]
      omega
    rw [stringResult, hstart]
    dsimp only
    rw [hlast]
    rfl
  | missing =>
    rw [stringResult, Span.between, utf8Length_append, Nat.add_sub_cancel_left]
    rfl

/-- **What a cursor makes of a piece of the text.** -/
theorem InDatum.takeToken {c : Cursor} {line : Nat} {seen : List Char} {first : Char} {after more : List Char}
    (h : c.InDatum line seen (first :: more)) (hr : c.rest = first :: after) (hs : BeginsToken (first :: more)) :
    ∃ c', c.takeToken first after = (c', (pieceAt seen first more).item.mapError (·.failure line)) ∧
      c'.InDatum line (pieceAt seen first more).seen (pieceAt seen first more).ahead := by
  obtain hword | rfl | rfl | rfl | rfl := hs.kinds
  · obtain ⟨later, hmore, hline⟩ := h.line
    rw [hr, List.cons_append] at hmore
    obtain rfl := (List.cons.inj hmore).2
    rw [hr] at hline
    have hwordOf := wordOf_line hword hline
    have hcut : firstPiece (utf8Length seen) first (after ++ later) =
        wordPiece (utf8Length seen) (first :: wordOf after) := by
      rw [firstPiece_of_word _ _ hword, hwordOf]
    have hprefix : first :: wordOf after <+: c.rest := by
      rw [hr]
      exact List.prefix_cons_inj first |>.2 (List.takeWhile_prefix _)
    obtain ⟨left, hleft⟩ := hprefix
    have hsplit : first :: (after ++ later) = (first :: wordOf after) ++ (left ++ later) := by
      rw [← List.append_assoc, hleft, hr]
      rfl
    rw [hsplit] at h
    obtain ⟨c', hword', hc'⟩ := h.takeWord ⟨left, hleft⟩
    rw [pieceAt_eq hcut hsplit, takeToken_of_word hword]
    exact ⟨c', hword', hc'⟩
  · exact h.takeMark hr .openParen
  · exact h.takeMark hr .closeParen
  · exact h.takeMark hr .quote
  · obtain ⟨c', left, hmore, htake, hc'⟩ := h.takeString hr
    rw [pieceAt_eq (show firstPiece (utf8Length seen) '"' more = stringPiece (utf8Length seen) more from rfl)
      (congrArg ('"' :: ·) hmore)]
    exact ⟨c', htake, hc'⟩

/-- **The next token is the next piece of the text.** -/
theorem InDatum.nextToken {c : Cursor} {line : Nat} {seen ahead : List Char} (h : c.InDatum line seen ahead) :
    (∃ p c', nextPiece? seen ahead = some p ∧ c'.InDatum line p.seen p.ahead ∧
      c.nextToken = (c', (p.item.mapError (·.failure line)).map some)) ∨
    (nextPiece? seen ahead = none ∧ ∃ c', c'.InDatum line (seen ++ ahead) [] ∧ c.nextToken = (c', .ok none)) := by
  obtain ⟨c₁, gap, more, hskip, rfl, hgap, hc₁, hused⟩ := h.skipAtmosphere
  obtain ⟨gap', first, more', heq, hgap', -, hs, hnext⟩ | ⟨hall, -, hnext⟩ := nextPiece?_cases seen (gap ++ more)
  · obtain rfl := hgap.symm.trans hgap'
    obtain rfl := List.append_cancel_left heq
    obtain ⟨later, hmore, -⟩ := hc₁.line
    have hne : c₁.rest ≠ [] := fun hr => List.cons_ne_nil _ _ (hused hr)
    obtain ⟨first', after, hr⟩ := List.exists_cons_of_ne_nil hne
    rw [hr, List.cons_append] at hmore
    obtain ⟨rfl, rfl⟩ := List.cons.inj hmore
    obtain ⟨c', htake, hc'⟩ := hc₁.takeToken hr hs
    refine .inl ⟨_, c', hnext, hc', ?_⟩
    rw [Cursor.nextToken, hskip]
    dsimp only
    rw [hr]
    dsimp only
    rw [htake]
    cases (pieceAt (seen ++ gap) first (after ++ later)).item <;> rfl
  · have hmore : more = [] := by
      rw [hgap] at hall
      exact List.append_cancel_left (hall.symm.trans (List.append_nil gap).symm)
    have hr : c₁.rest = [] := by
      obtain ⟨later, hlater, -⟩ := hc₁.line
      rw [hmore] at hlater
      exact (List.append_eq_nil_iff.1 hlater.symm).1
    subst hmore
    refine .inr ⟨hnext, c₁, by rwa [List.append_nil], ?_⟩
    rw [Cursor.nextToken, hskip]
    dsimp only
    rw [hr]

theorem InDatum.nextToken_of_some {c : Cursor} {line : Nat} {seen ahead : List Char} (h : c.InDatum line seen ahead)
    {p : Piece} (hnext : nextPiece? seen ahead = some p) :
    ∃ c', c'.InDatum line p.seen p.ahead ∧ c.nextToken = (c', (p.item.mapError (·.failure line)).map some) := by
  obtain ⟨p', c', hp, hc', htoken⟩ | ⟨hnone, -⟩ := h.nextToken
  · cases hnext.symm.trans hp
    exact ⟨c', hc', htoken⟩
  · cases hnext.symm.trans hnone

theorem InDatum.nextToken_of_none {c : Cursor} {line : Nat} {seen ahead : List Char} (h : c.InDatum line seen ahead)
    (hnext : nextPiece? seen ahead = none) :
    ∃ c', c'.InDatum line (seen ++ ahead) [] ∧ c.nextToken = (c', .ok none) := by
  obtain ⟨p, c', hp, -⟩ | ⟨-, hend⟩ := h.nextToken
  · cases hnext.symm.trans hp
  · exact hend

theorem scanAll_of_end {c c' : Cursor} (h : c.nextToken = (c', .ok none)) : c.scanAll = [] := by
  rw [Cursor.scanAll]
  split
  · rfl
  · next h' => cases h.symm.trans h'
  · next h' => cases h.symm.trans h'
  · next h' => cases h.symm.trans h'

theorem scanAll_of_item {c c' : Cursor} {line : Nat} {item : Except LexicalError Token}
    (h : c.nextToken = (c', (item.mapError (·.failure line)).map some)) :
    c.scanAll = item.mapError (·.failure line) :: c'.scanAll := by
  rw [Cursor.scanAll]
  cases item with
  | ok t =>
    split
    · next h' => cases h.symm.trans h'
    · next h' => cases h.symm.trans h'; rfl
    · next h' => cases h.symm.trans h'
    · next h' => cases h.symm.trans h'
  | error e =>
    split
    · next h' => cases h.symm.trans h'
    · next h' => cases h.symm.trans h'
    · next h' => cases h.symm.trans h'; rfl
    · next h' => cases h.symm.trans h'

/-- **All tokens of a source are those of its text.** -/
theorem InDatum.scanAll {c : Cursor} {line : Nat} {seen ahead : List Char} (h : c.InDatum line seen ahead) :
    c.scanAll = (lexFrom seen ahead).map (Except.mapError (·.failure line)) := by
  fun_induction lexFrom seen ahead generalizing c with
  | case1 seen ahead hnext =>
    obtain ⟨c', -, htoken⟩ := h.nextToken_of_none hnext
    exact scanAll_of_end htoken
  | case2 seen ahead p hnext ih =>
    obtain ⟨c', hc', htoken⟩ := h.nextToken_of_some hnext
    rw [scanAll_of_item htoken, ih hc', List.map_cons]

end Cursor

/-! ## The lines of a text -/

theorem linesAfter_endsLine (text : List Char) : ∀ (done : List (List Char)) (line : List Char),
    (∀ l ∈ done, l ≠ [] ∧ EndsLine l) → ∀ l ∈ (linesAfter '\n' done line text).1, l ≠ [] ∧ EndsLine l := by
  induction text with
  | nil =>
    intro done line hdone l hl
    exact hdone l (List.mem_reverse.1 hl)
  | cons c cs ih =>
    intro done line hdone
    rw [linesAfter]
    split
    · next hc =>
      refine ih _ _ fun l hl => ?_
      obtain rfl | hl := List.mem_cons.1 hl
      · refine ⟨by simp, fun d hd => ?_⟩
        rw [List.getLast?_reverse] at hd
        cases hd
        simpa using hc
      · exact hdone l hl
    · exact ih _ _ hdone

theorem isChain_lines {lines : List (List Char)} (h : ∀ l ∈ lines, l ≠ [] ∧ EndsLine l) (last : List Char) :
    ∀ {first : List Char}, EndsLine first →
      (first :: (lines ++ if last.isEmpty then [] else [last])).IsChain fun line _ => EndsLine line := by
  induction lines with
  | nil =>
    intro first hfirst
    rw [List.nil_append]
    split
    · exact .singleton _
    · exact .cons_cons hfirst (.singleton _)
  | cons line lines ih =>
    intro first hfirst
    exact .cons_cons hfirst (ih (fun l hl => h l (List.mem_cons_of_mem _ hl)) (h line List.mem_cons_self).2)

namespace Cursor

/-- At the beginning of a text all of it is left. -/
theorem before_start (text : String) : (start (.code text)).Before text.toList := by
  have hflatten := splitLines_flatten '\n' text.toList
  have hends : ∀ l ∈ (splitLines '\n' text.toList).1, l ≠ [] ∧ EndsLine l := linesAfter_endsLine text.toList [] [] nofun
  have hfeed : (start (.code text)).deliveries = (splitLines '\n' text.toList).1.map .line ++
      (if (splitLines '\n' text.toList).2.isEmpty then [] else [.line (splitLines '\n' text.toList).2]) := rfl
  generalize splitLines '\n' text.toList = cut at hflatten hends hfeed
  refine ⟨rfl, ⟨cut.1 ++ if cut.2.isEmpty then [] else [cut.2], ?_, ?_, ?_, isChain_lines hends cut.2 nofun⟩,
    rfl, rfl, nofun⟩
  · rw [hfeed, List.map_append]
    split <;> rfl
  · rw [← hflatten]
    show cut.1.flatten ++ cut.2 = (cut.1 ++ if cut.2.isEmpty then [] else [cut.2]).flatten
    split
    · next hempty => rw [List.isEmpty_iff.1 hempty, List.append_nil, List.append_nil]
    · rw [List.flatten_append, List.flatten_singleton]
  · rw [List.mem_append, not_or]
    refine ⟨fun hmem => (hends [] hmem).1 rfl, ?_⟩
    split <;> simp_all

theorem Before.openDatum {c : Cursor} {ahead : List Char} (h : c.Before ahead) :
    c.openDatum.InDatum c.lineNumber [] ahead :=
  ⟨⟨h.name, h.lines, h.lasting, h.console, h.atEnd⟩, _, rfl, rfl, rfl⟩

end Cursor

/-- **Scanning line by line is lexing the text as a whole.**  Asking a cursor for tokens until there are none brings the
tokens and lexical errors of the text, in order, each error with the text up to it.  Their spans are not empty, and each
begins where the one before it has ended or later; the text under the span of a token spells it; and there are only
blanks and comments before, between and behind the pieces that tokens and errors take. -/
theorem scanning_by_lines_is_lexing (text : String) :
    (Cursor.start (.code text)).openDatum.scanAll = (lex text.toList).map (Except.mapError (·.failure 0)) ∧
    ((lex text.toList).flatMap spansOf).Pairwise (fun a b => a.start + a.length ≤ b.start) ∧
    (∀ s ∈ (lex text.toList).flatMap spansOf, 0 < s.length ∧ s.start + s.length ≤ utf8Length text.toList) ∧
    (∀ t, .ok t ∈ lex text.toList → ∃ before piece more, text.toList = before ++ piece ++ more ∧
      t.span = ⟨utf8Length before, utf8Length piece⟩ ∧ Spelling piece t.lexeme more) ∧
    Laid [] text.toList (lex text.toList) := by
  have hlaid := lexFrom_laid [] text.toList
  have hdatum := (Cursor.before_start text).openDatum
  refine ⟨hdatum.scanAll, hlaid.increasing.2, fun s hs => (hlaid.increasing.1 s hs).2, ?_, hlaid⟩
  intro t ht
  exact hlaid.slice ht

end LispSession
