import LispSession.Proofs.Printed.ReadBack
import LispSession.Proofs.Lexing.TextAhead
/-!
# Data nested too deep

A datum nested deeper than the limit is refused at the first list or quote beyond it.  What is left of the datum is
skipped by counting the lists that are still open, so a datum in which a list is open there is skipped to its end and
nothing else is (`Denotes.givesUp`).  Where only quotes are open there is nothing to count: a datum that begins with
more quotes than the limit is left right behind the one that was refused, and the rest of it is read as if it stood for
itself (`quotes_fail_at_once`).
-/
namespace LispSession

open LispSession.Parser

/-! ## Skipping -/

theorem push_skipping_inside {t : Token} (hopen : t.lexeme ≠ .openParen) (hclose : t.lexeme ≠ .closeParen)
    (place : Span) (unclosed : Nat) : push (.skipping place unclosed) t = .more (.skipping place unclosed) := by
  obtain ⟨lexeme, span⟩ := t
  cases lexeme with
  | openParen => exact absurd rfl hopen
  | closeParen => exact absurd rfl hclose
  | quote | dot | str | num | bool | sym => rfl

theorem gaveUp_inside {t : Token} (hopen : t.lexeme ≠ .openParen) (hclose : t.lexeme ≠ .closeParen) (place : Span)
    (unclosed : Nat) (ts : List Token) :
    (gaveUp place (unclosed + 1)).after (t :: ts) = (gaveUp place (unclosed + 1)).after ts := by
  rw [gaveUp, Step.after, push_skipping_inside hopen hclose]

theorem gaveUp_open {t : Token} (h : t.lexeme = .openParen) (place : Span) (unclosed : Nat) (ts : List Token) :
    (gaveUp place (unclosed + 1)).after (t :: ts) = (gaveUp place (unclosed + 2)).after ts := by
  rw [gaveUp, Step.after, push_skipping_openParen h, gaveUp]

theorem gaveUp_close {t : Token} (h : t.lexeme = .closeParen) (place : Span) (unclosed : Nat) :
    (gaveUp place (unclosed + 1)).after [t] = some (gaveUp place unclosed) := by
  rw [gaveUp, Step.after, push_skipping_closeParen h]
  rfl

/-- A dot and a tail that is skipped close the list they belong to. -/
theorem gaveUp_dotted {dot c : Token} {p : List Token} (hdot : dot.lexeme = .dot) (hc : c.lexeme = .closeParen)
    {place : Span} {unclosed : Nat}
    (tail : (gaveUp place (unclosed + 1)).after p = some (gaveUp place (unclosed + 1))) :
    (gaveUp place (unclosed + 1)).after (dot :: p ++ [c]) = some (gaveUp place unclosed) := by
  rw [List.cons_append, gaveUp_inside (by rw [hdot]; nofun) (by rw [hdot]; nofun), Step.after_append_of _ tail]
  exact gaveUp_close hc place unclosed

mutual

/-- **A datum is skipped as a whole** while another one around it is given up. -/
theorem Denotes.skipped {p : List Token} {d : Datum} {n : Nat} : Denotes p d n → ∀ (place : Span) (unclosed : Nat),
    (gaveUp place (unclosed + 1)).after p = some (gaveUp place (unclosed + 1))
  | .atom h, place, unclosed => by
    apply gaveUp_inside <;> intro ht <;> rw [ht] at h <;> cases h
  | .list ho hc items, place, unclosed => by
    have inside := items.skipped place (unclosed + 1)
    rw [List.cons_append, gaveUp_open ho, Step.after_append_of _ inside]
    exact gaveUp_close hc place (unclosed + 1)
  | .dotted ho hdot hc items _ tail, place, unclosed => by
    have inside := items.skipped place (unclosed + 1)
    rw [List.append_assoc, List.cons_append, gaveUp_open ho, Step.after_append_of _ inside]
    exact gaveUp_dotted hdot hc (tail.skipped place (unclosed + 1))
  | .quoted hq inner, place, unclosed => by
    rw [gaveUp_inside (by rw [hq]; nofun) (by rw [hq]; nofun)]
    exact inner.skipped place unclosed

theorem DenotesAll.skipped {ps : List Token} {ds : List Datum} {n : Nat} :
    DenotesAll ps ds n → ∀ (place : Span) (unclosed : Nat),
      (gaveUp place (unclosed + 1)).after ps = some (gaveUp place (unclosed + 1))
  | .nil, _, _ => rfl
  | .cons first later, place, unclosed => by
    rw [Step.after_append_of _ (first.skipped place unclosed)]
    exact later.skipped place unclosed

end

/-! ## Giving up -/

def Lexeme.isQuote : Lexeme → Bool
  | .quote => true
  | _ => false

/-- How many quotes stand in front of a row of tokens. -/
def leadingQuotes (ts : List Token) : Nat := (ts.takeWhile (·.lexeme.isQuote)).length

/-- Under the forms that are open around a row of tokens, `t` is the token of it that opens the first list or quote
beyond the limit. -/
def Oversteps (stack : List OpenForm) (ts : List Token) (t : Token) : Prop :=
  ∃ q r stack', ts = q ++ t :: r ∧ (Step.more (.reading stack)).after q = some (.more (.reading stack')) ∧
    stack'.length = nestingLimit ∧ (t.lexeme = .openParen ∨ t.lexeme = .quote)

theorem Oversteps.append {stack : List OpenForm} {ts : List Token} {t : Token} (h : Oversteps stack ts t)
    (us : List Token) :
    Oversteps stack (ts ++ us) t := by
  obtain ⟨q, r, stack', rfl, hopen, hlimit⟩ := h
  exact ⟨q, r ++ us, stack', by simp, hopen, hlimit⟩

theorem Oversteps.behind {stack stack' : List OpenForm} {ts us : List Token} {t : Token}
    (hts : (Step.more (.reading stack)).after ts = some (.more (.reading stack'))) (h : Oversteps stack' us t) :
    Oversteps stack (ts ++ us) t := by
  obtain ⟨q, r, stack'', rfl, hopen, hlimit⟩ := h
  exact ⟨ts ++ q, r, stack'', by simp, (Step.after_append_of q hts).trans hopen, hlimit⟩

theorem Oversteps.cons {stack stack' : List OpenForm} {o t : Token} {us : List Token}
    (ho : push (.reading stack) o = .more (.reading stack')) (h : Oversteps stack' us t) :
    Oversteps stack (o :: us) t :=
  @Oversteps.behind stack stack' [o] us t (by rw [Step.after, ho]; rfl) h

theorem Oversteps.here {stack : List OpenForm} (hlimit : stack.length = nestingLimit) {t : Token}
    (ht : t.lexeme = .openParen ∨ t.lexeme = .quote) (ts : List Token) : Oversteps stack (t :: ts) t :=
  ⟨[], ts, stack, rfl, rfl, hlimit, ht⟩

/-- How many lists are open. -/
def listsIn (stack : List OpenForm) : Nat := stack.countP OpenForm.isList

theorem listsIn_list {form : OpenForm} (h : form.isList = true) (stack : List OpenForm) :
    listsIn (form :: stack) = listsIn stack + 1 := List.countP_cons_of_pos h

theorem listsIn_quote (place : Span) (stack : List OpenForm) : listsIn (.quote place :: stack) = listsIn stack :=
  List.countP_cons_of_neg nofun

theorem enter_limit {form : OpenForm} {stack : List OpenForm} (place : Span) (h : stack.length = nestingLimit) :
    enter form place stack = gaveUp place (listsIn (form :: stack)) := by
  rw [enter, if_neg (by omega), listsIn]
  cases (form :: stack).countP OpenForm.isList <;> rfl

theorem push_openParen_full {t : Token} (h : t.lexeme = .openParen) {stack : List OpenForm}
    (hfull : stack.length = nestingLimit) : push (.reading stack) t = gaveUp t.span (listsIn stack + 1) := by
  obtain ⟨lexeme, span⟩ := t
  subst h
  rw [push, enter_limit span hfull, listsIn_list rfl]

theorem push_quote_full {t : Token} (h : t.lexeme = .quote) {stack : List OpenForm}
    (hfull : stack.length = nestingLimit) :
    push (.reading stack) t = gaveUp t.span (listsIn stack) := by
  obtain ⟨lexeme, span⟩ := t
  subst h
  rw [push, enter_limit span hfull, listsIn_quote]

mutual

/-- **A datum that is nested too deep is given up and skipped to its end**, if a list is open around it or it does not
begin with more quotes than there is room for. -/
theorem Denotes.givesUp {p : List Token} {d : Datum} {n : Nat} : Denotes p d n → ∀ stack : List OpenForm,
    stack.length ≤ nestingLimit → nestingLimit < stack.length + n →
    (listsIn stack ≠ 0 ∨ stack.length + leadingQuotes p ≤ nestingLimit) →
    ∃ t, Oversteps stack p t ∧ (Step.more (.reading stack)).after p = some (gaveUp t.span (listsIn stack))
  | .atom _, stack, hroom, hdeep, _ => by omega
  | .list (o := o) ho hc items, stack, hroom, hdeep, _ => by
    by_cases hfull : stack.length = nestingLimit
    · refine ⟨o, .here hfull (.inl ho) _, ?_⟩
      rw [List.cons_append, Step.after, push_openParen_full ho hfull, Step.after_append_of _ (items.skipped o.span _)]
      exact gaveUp_close hc _ _
    · obtain ⟨t, hover, hitems⟩ := items.givesUp o.span [] stack (by omega) (by omega)
      have hopen := push_openParen ho stack (by omega)
      refine ⟨t, (hover.cons hopen).append _, ?_⟩
      rw [List.cons_append, Step.after, hopen, Step.after_append_of _ hitems]
      exact gaveUp_close hc _ _
  | @Denotes.dotted o _ _ _ _ ds _ n m ho hdot hc items hne tail, stack, hroom, hdeep, _ => by
    by_cases hfull : stack.length = nestingLimit
    · refine ⟨o, .here hfull (.inl ho) _, ?_⟩
      rw [List.append_assoc, List.cons_append, Step.after, push_openParen_full ho hfull,
        Step.after_append_of _ (items.skipped o.span _)]
      exact gaveUp_dotted hdot hc (tail.skipped _ _)
    · have hopen := push_openParen ho stack (by omega)
      rw [List.append_assoc, List.cons_append, Step.after, hopen]
      by_cases hdeepItems : nestingLimit < stack.length + 1 + n
      · obtain ⟨t, hover, hitems⟩ := items.givesUp o.span [] stack (by omega) hdeepItems
        refine ⟨t, (hover.append _).cons hopen, ?_⟩
        rw [Step.after_append_of _ hitems]
        exact gaveUp_dotted hdot hc (tail.skipped _ _)
      · -- The items are within the limit, so it is the tail that goes over it, with its own list open around it.
        have hitems := items.after o.span [] stack (by omega)
        have hbehind := push_dot hdot o.span (show ds.reverse ++ [] ≠ [] by simpa using hne) stack
        have hlists := listsIn_list (show (OpenForm.tail o.span (ds.reverse ++ [])).isList = true from rfl) stack
        obtain ⟨t, hover, htail⟩ := tail.givesUp (.tail o.span (ds.reverse ++ []) :: stack)
          (by simp only [List.length_cons]; omega) (by simp only [List.length_cons]; omega) (.inl (by omega))
        refine ⟨t, (((hover.append _).cons hbehind).behind hitems).cons hopen, ?_⟩
        rw [Step.after_append_of _ hitems, List.cons_append, Step.after, hbehind, Step.after_append_of _ htail, hlists]
        exact gaveUp_close hc _ _
  | .quoted (q := q) (p := p) hq inner, stack, hroom, hdeep, hcount => by
    have hquotes : leadingQuotes (q :: p) = leadingQuotes p + 1 := by
      rw [leadingQuotes, List.takeWhile_cons_of_pos (by rw [hq]; rfl)]
      rfl
    by_cases hfull : stack.length = nestingLimit
    · obtain ⟨unclosed, hlists⟩ : ∃ unclosed, listsIn stack = unclosed + 1 :=
        Nat.exists_eq_succ_of_ne_zero (hcount.resolve_right (by omega))
      refine ⟨q, .here hfull (.inr hq) _, ?_⟩
      rw [Step.after, push_quote_full hq hfull, hlists]
      exact inner.skipped q.span unclosed
    · have hlists := listsIn_quote q.span stack
      obtain ⟨t, hover, hinner⟩ := inner.givesUp (.quote q.span :: stack) (by simp only [List.length_cons]; omega)
        (by simp only [List.length_cons]; omega)
          (hcount.imp (hlists ▸ ·) fun hle => by simp only [List.length_cons]; omega)
      have hopen := push_quote hq stack (by omega)
      refine ⟨t, hover.cons hopen, ?_⟩
      rw [Step.after, hopen, hinner, hlists]

theorem DenotesAll.givesUp {ps : List Token} {ds : List Datum} {n : Nat} : DenotesAll ps ds n →
    ∀ (opener : Span) (items : List Datum) (stack : List OpenForm),
      stack.length + 1 ≤ nestingLimit → nestingLimit < stack.length + 1 + n →
      ∃ t, Oversteps (.list opener items :: stack) ps t ∧
        (Step.more (.reading (.list opener items :: stack))).after ps = some (gaveUp t.span (listsIn stack + 1))
  | .nil, _, _, _, hroom, hdeep => by omega
  | .cons (n := n) (m := m) (d := d) first later, opener, items, stack, hroom, hdeep => by
    by_cases hfirst : nestingLimit < stack.length + 1 + n
    · have hlists := listsIn_list (show (OpenForm.list opener items).isList = true from rfl) stack
      obtain ⟨t, hover, hitem⟩ := first.givesUp (.list opener items :: stack) hroom hfirst (.inl (by omega))
      refine ⟨t, hover.append _, ?_⟩
      rw [Step.after_append_of _ hitem, hlists]
      exact later.skipped _ _
    · have hitem := first.after (.list opener items :: stack) (by simp only [List.length_cons]; omega)
      rw [deliver] at hitem
      obtain ⟨t, hover, hitems⟩ := later.givesUp opener (d :: items) stack hroom (by omega)
      exact ⟨t, hover.behind hitem, (Step.after_append_of _ hitem).trans hitems⟩

end

/-! ## Quotes only -/

theorem quotes_after {qs : List Token} (hqs : ∀ q ∈ qs, q.lexeme = .quote) : ∀ stack : List OpenForm,
    stack.length + qs.length ≤ nestingLimit →
    ∃ stack', (Step.more (.reading stack)).after qs = some (.more (.reading stack')) ∧
      stack'.length = stack.length + qs.length ∧ listsIn stack' = listsIn stack := by
  induction qs with
  | nil => exact fun stack _ => ⟨stack, rfl, rfl, rfl⟩
  | cons q qs ih =>
    intro stack hroom
    rw [List.length_cons] at hroom
    rw [List.forall_mem_cons] at hqs
    obtain ⟨stack', hafter, hlength, hlists⟩ := ih hqs.2 (.quote q.span :: stack) (by rw [List.length_cons]; omega)
    refine ⟨stack', ?_, by rw [hlength, List.length_cons, List.length_cons]; omega, hlists.trans (listsIn_quote _ _)⟩
    rw [Step.after, push_quote hqs.1 stack (by omega), hafter]

theorem split_of_leadingQuotes {ts : List Token} (h : nestingLimit < leadingQuotes ts) :
    ∃ qs q r, ts = qs ++ q :: r ∧ qs.length = nestingLimit ∧ (∀ t ∈ qs, t.lexeme = .quote) ∧ q.lexeme = .quote := by
  have hquote : ∀ t ∈ ts.takeWhile (·.lexeme.isQuote), t.lexeme = .quote := fun t ht => by
    have hisQuote := List.mem_takeWhile_imp ht
    cases hlexeme : t.lexeme <;> rw [hlexeme] at hisQuote <;> first | rfl | cases hisQuote
  have hsplit : ts.takeWhile (·.lexeme.isQuote) ++ ts.dropWhile (·.lexeme.isQuote) = ts :=
    List.takeWhile_append_dropWhile
  rw [leadingQuotes] at h
  generalize ts.takeWhile (·.lexeme.isQuote) = front at h hquote hsplit
  have hcut : front.take nestingLimit ++ front.drop nestingLimit = front := List.take_append_drop _ _
  obtain ⟨q, later, hdrop⟩ := List.exists_cons_of_ne_nil (List.drop_eq_nil_iff.not.2 (Nat.not_le.2 h))
  rw [hdrop] at hcut
  refine ⟨front.take nestingLimit, q, later ++ ts.dropWhile (·.lexeme.isQuote), ?_,
    List.length_take_of_le (Nat.le_of_lt h), fun t ht => hquote t (List.mem_of_mem_take ht), hquote q (hcut ▸ by simp)⟩
  rw [← List.cons_append, ← List.append_assoc, hcut, hsplit]

/-- **A datum that begins with more quotes than the limit is given up at once**, with all of the rest of it ahead. -/
theorem quotes_fail_at_once {qs : List Token} {q : Token} (hqs : ∀ t ∈ qs, t.lexeme = .quote) (hq : q.lexeme = .quote)
    (hlength : qs.length = nestingLimit) (r : List Token) :
    Oversteps [] (qs ++ q :: r) q ∧ (Step.more .start).after (qs ++ [q]) = some (.failed (.nestedTooDeep q.span)) := by
  obtain ⟨stack, hafter, hfull, hlists⟩ := quotes_after hqs [] (by simpa using Nat.le_of_eq hlength)
  have hfull' : stack.length = nestingLimit := by simpa [hlength] using hfull
  refine ⟨⟨qs, r, stack, rfl, hafter, hfull', .inr hq⟩, ?_⟩
  rw [start, Step.after_append_of _ hafter, Step.after, push_quote_full hq hfull', hlists]
  rfl

/-! ## Texts -/

/-- The first `(` or `'` of a row of tokens that is nested beyond the limit: so many lists and quotes are open in front
of it, and none of them holds anything beyond the limit. -/
def FirstBeyond (ts : List Token) (t : Token) : Prop :=
  ∃ q r stack, ts = q ++ t :: r ∧ Opened stack q ∧ stack.length = 256 ∧ (t.lexeme = .openParen ∨ t.lexeme = .quote)

theorem after_explained {p : Parser} {q : List Token} (hp : p.Explained q) : ∀ {ts : List Token} {s : Parser.Step},
    (Step.more p).after ts = some s → s.Explained (q ++ ts) := by
  intro ts
  induction ts generalizing p q with
  | nil =>
    intro s h
    cases h
    rwa [List.append_nil]
  | cons t ts ih =>
    intro s h
    have hpush := push_explained hp t
    rw [Step.after] at h
    cases hstep : p.push t with
    | more p' =>
      rw [hstep] at h hpush
      rw [List.append_cons]
      exact ih hpush h
    | done d | failed e =>
      rw [hstep] at h hpush
      cases ts with
      | nil =>
        cases h
        exact hpush
      | cons => cases h

theorem Oversteps.firstBeyond {ts : List Token} {t : Token} (h : Oversteps [] ts t) : FirstBeyond ts t := by
  obtain ⟨q, r, stack, hts, hopen, hlimit, ht⟩ := h
  have hexplained := after_explained (.reading .nil) hopen
  cases hexplained with
  | reading hopened => exact ⟨q, r, stack, hts, hopened, hlimit, ht⟩

/-- The text of one datum, from its first token to its last: blanks and comments are inside only. -/
structure DatumText (text : List Char) (ts : List Token) (d : Datum) (n : Nat) : Prop where
  lexed : lex text = ts.map .ok
  denotes : Denotes ts d n
  starts : ∀ t ∈ ts.head?, t.span.start = 0
  ends : ∀ t ∈ ts.getLast?, t.span.start + t.span.length = utf8Length text

theorem Denotes.ne_nil {p : List Token} {d : Datum} {n : Nat} (h : Denotes p d n) : p ≠ [] := by
  cases h <;> simp

theorem Denotes.last_ne_quote {p : List Token} {d : Datum} {n : Nat} :
    Denotes p d n → ∀ t ∈ p.getLast?, t.lexeme ≠ .quote
  | .atom (t := t) h, t', ht => by
    obtain rfl : t = t' := by simpa using ht
    intro hquote
    rw [hquote] at h
    cases h
  | .list _ hc _, t, ht => by
    rw [List.getLast?_concat] at ht
    cases ht
    rw [hc]
    nofun
  | .dotted _ _ hc _ _ _, t, ht => by
    rw [List.getLast?_concat] at ht
    cases ht
    rw [hc]
    nofun
  | .quoted (p := p) _ inner, t, ht => by
    refine inner.last_ne_quote t ?_
    obtain ⟨t', p', rfl⟩ := List.exists_cons_of_ne_nil inner.ne_nil
    rwa [List.getLast?_cons_cons] at ht

theorem eq_nil_of_utf8Length {text : List Char} (h : utf8Length text = 0) : text = [] := by
  by_contra hne
  have hpos := utf8Length_pos hne
  omega

namespace DatumText

variable {text : List Char} {ts : List Token} {d : Datum} {n : Nat}

theorem pieces (h : DatumText text ts d n) : Pieces [] text ts text [] := by
  obtain ⟨seen, ahead, hpieces⟩ := pieces_of_lexFrom h.lexed
  obtain ⟨hmoves, hends⟩ := hpieces.moves
  rw [List.nil_append] at hmoves
  obtain ⟨t, ht⟩ := Option.ne_none_iff_exists'.1 (List.getLast?_eq_none_iff.not.2 h.denotes.ne_nil)
  have hseen := hends t ht
  rw [h.ends t ht, ← hmoves, utf8Length_append] at hseen
  obtain rfl := eq_nil_of_utf8Length (show utf8Length ahead = 0 by omega)
  rw [List.append_nil] at hmoves
  subst hmoves
  exact hpieces

theorem begins (h : DatumText text ts d n) : BeginsToken text := by
  cases h.pieces with
  | nil => exact absurd rfl h.denotes.ne_nil
  | @cons _ _ _ _ p t _ next item later =>
    obtain ⟨gap, first, after, rfl, -, -, hs, hnext⟩ | ⟨-, -, hnext⟩ := nextPiece?_cases [] text
    · cases next.symm.trans hnext
      have hstart := h.starts t rfl
      rw [pieceAt] at item
      rw [(itemAt_eq_ok item).2, List.nil_append] at hstart
      rw [eq_nil_of_utf8Length hstart, List.nil_append]
      exact hs
    · cases next.symm.trans hnext

end DatumText

namespace Cursor

theorem seekDatum_start {text : String} (hs : BeginsToken text.toList) :
    ∃ c, (start (.code text)).seekDatum false = (c, .ok true) ∧ c.Before text.toList ∧ c.lineNumber = 1 := by
  obtain ⟨first, after, htext, hfirst⟩ := hs
  obtain ⟨c, hline, hc, -, hr, hnumber⟩ | ⟨hempty, -⟩ := (before_start text).nextLine rfl
  · obtain ⟨first', after', hrest⟩ := List.exists_cons_of_ne_nil hr
    obtain ⟨later, hlater, -⟩ := hc.line
    rw [htext, hrest, List.cons_append] at hlater
    have hbegins : BeginsToken c.rest := ⟨first', after', hrest, (List.cons.inj hlater).1 ▸ hfirst⟩
    refine ⟨c, ?_, hc, hnumber⟩
    rw [seekDatum_of_nextLine rfl hline, if_pos rfl, seekDatum_of_starts hbegins]
  · rw [hempty] at htext
    cases htext

/-- The next datum, behind blanks and comments. -/
theorem Before.read_done {c : Cursor} {text more : List Char} (h : c.Before text) (gap : List Char)
    (htext : text = gap ++ more) (hgap : Atmosphere gap) (hs : BeginsToken more) {ts : List Token}
    {seen ahead : List Char} (hp : Pieces [] more ts seen ahead) {d : Datum}
    (hafter : (Step.more .start).after ts = some (.done d)) :
    c.read.2 = .ok (some d) := by
  subst htext
  obtain ⟨c₁, gap', more', htext, hgap', hc₁, hseek, -⟩ := h.seekDatum false
  obtain rfl := hgap'.symm.trans (hgap.gapOf hs)
  obtain rfl := List.append_cancel_left htext
  obtain ⟨c₂, hscans, -⟩ := hc₁.openDatum.scans hp
  have hfeed : c₁.openDatum.feedParser .start = c₂.settle (.done d) := hscans.settle hafter
  obtain ⟨first, after, rfl, -⟩ := hs
  rw [List.isEmpty_cons, Bool.not_false] at hseek
  rw [read, hseek]
  dsimp only
  rw [hfeed]
  rfl

/-- A datum that fails within a text leaves what comes behind the tokens it has taken. -/
theorem read_start_failed {text : String} (hs : BeginsToken text.toList) {ts : List Token} {seen ahead : List Char}
    (hp : Pieces [] text.toList ts seen ahead) {error : SyntaxError}
    (hafter : (Step.more .start).after ts = some (.failed error)) :
    ∃ c, (start (.code text)).read = (c, .error (.text error (excerptOf 1 seen))) ∧ c.Before ahead := by
  obtain ⟨c₁, hseek, hc₁, hnumber⟩ := seekDatum_start hs
  obtain ⟨c, hscans, hc⟩ := hc₁.openDatum.scans hp
  have hfeed : c₁.openDatum.feedParser .start = c.settle (.failed error) := hscans.settle hafter
  refine ⟨c.closeDatum, ?_, hc.closeDatum⟩
  rw [read, hseek]
  dsimp only
  rw [hfeed, settle, hc.reject, hnumber]
  rfl

end Cursor

theorem excerptOf_one (text : String) : excerptOf 1 text.toList = ⟨"<code>:1", text⟩ := by
  rw [excerptOf, String.ofList_toList]
  congr

namespace DatumText

variable {D R : String} {ts : List Token} {d : Datum} {n : Nat}

theorem begins_append (h : DatumText D.toList ts d n) (R : String) : BeginsToken (D ++ R).toList := by
  rw [String.toList_append]
  exact h.begins.append R.toList

/-- A datum nested too deep that does not begin with too many quotes is refused and skipped. -/
theorem refused (h : DatumText D.toList ts d n) (hdeep : nestingLimit < n) (hquotes : leadingQuotes ts ≤ nestingLimit)
    (hR : EndsWord R.toList) : ∃ t c, FirstBeyond ts t ∧
      (Cursor.start (.code (D ++ R))).read = (c, .error (.text (.nestedTooDeep t.span) ⟨"<code>:1", D⟩)) ∧
      c.Before R.toList := by
  obtain ⟨t, hfirst, hafter⟩ :=
    h.denotes.givesUp [] (Nat.zero_le _) (by simpa using hdeep) (.inr (by simpa using hquotes))
  have hpieces := h.pieces.append hR
  rw [← String.toList_append, List.nil_append] at hpieces
  obtain ⟨c, hread, hc⟩ := Cursor.read_start_failed (h.begins_append R) hpieces hafter
  rw [excerptOf_one] at hread
  exact ⟨t, c, hfirst.firstBeyond, hread, hc⟩

/-- One that does is left behind the quote that was refused. -/
theorem left_behind_quotes {qs r : List Token} {q : Token} (h : DatumText D.toList (qs ++ q :: r) d n)
    (hqs : ∀ t ∈ qs, t.lexeme = .quote) (hq : q.lexeme = .quote) (hlength : qs.length = nestingLimit)
    {front rest : String} (hfront : Pieces [] D.toList (qs ++ [q]) front.toList rest.toList) (hR : EndsWord R.toList) :
    ∃ c, (Cursor.start (.code (D ++ R))).read = (c, .error (.text (.nestedTooDeep q.span) ⟨"<code>:1", front⟩)) ∧
      c.Before (rest ++ R).toList := by
  have hpieces := hfront.append hR
  rw [← String.toList_append, ← String.toList_append] at hpieces
  obtain ⟨c, hread, hc⟩ := Cursor.read_start_failed (h.begins_append R) hpieces (quotes_fail_at_once hqs hq hlength r).2
  rw [excerptOf_one] at hread
  exact ⟨c, hread, hc⟩

end DatumText

/-- **A datum nested too deep is refused at the first list or quote beyond the limit, and skipped to its end**, unless
it begins with more quotes than the limit.  For a text `D` of such a datum, followed by `R`: the error shows all of `D`,
exactly `R` is left, and reading goes on as on `R` alone.  If `D` begins with 257 quotes, it is left behind the last of
these, and reading goes on with the rest of `D` as a text of its own. -/
theorem deep_datum_is_refused {D R : String} {ts : List Token} {d : Datum} {n : Nat} (hD : DatumText D.toList ts d n)
    (hdeep : 256 < n) (hR : EndsWord R.toList) : ∃ t c, FirstBeyond ts t ∧
    (leadingQuotes ts ≤ 256 →
      (Cursor.start (.code (D ++ R))).read = (c, .error (.text (.nestedTooDeep t.span) ⟨"<code>:1", D⟩)) ∧
      c.Before R.toList ∧ ∀ k, List.Forall₂ Alike (c.reads k) ((Cursor.start (.code R)).reads k)) ∧
    (256 < leadingQuotes ts → ∃ front rest, D = front ++ rest ∧ rest ≠ "" ∧
      utf8Length front.toList = t.span.start + t.span.length ∧
      (Cursor.start (.code (D ++ R))).read = (c, .error (.text (.nestedTooDeep t.span) ⟨"<code>:1", front⟩)) ∧
      c.Before (rest ++ R).toList ∧
      ∀ k, List.Forall₂ Alike (c.reads k) ((Cursor.start (.code (rest ++ R))).reads k)) := by
  by_cases hquotes : leadingQuotes ts ≤ 256
  · obtain ⟨t, c, hfirst, hread, hc⟩ := hD.refused hdeep hquotes hR
    exact ⟨t, c, hfirst, fun _ => ⟨hread, hc, fun k => reads_alike k hc (Cursor.before_start R)⟩,
      fun h => absurd hquotes (Nat.not_le.2 h)⟩
  · obtain ⟨qs, q, r, rfl, hlength, hqs, hq⟩ := split_of_leadingQuotes (Nat.not_le.1 hquotes)
    have hall := hD.pieces
    rw [List.append_cons] at hall
    obtain ⟨front, rest, hfront, hrest⟩ := hall.split
    rw [← String.toList_ofList (l := front), ← String.toList_ofList (l := rest)] at hfront
    obtain ⟨c, hread, hc⟩ := hD.left_behind_quotes hqs hq hlength hfront hR
    refine ⟨q, c, (quotes_fail_at_once hqs hq hlength r).1.firstBeyond, fun h => absurd h hquotes, fun _ => ?_⟩
    obtain ⟨hmoves, hends⟩ := hfront.moves
    refine ⟨_, _, ?_, ?_, (hends q (by simp)).symm, hread, hc, fun k => reads_alike k hc (Cursor.before_start _)⟩
    · rw [← String.toList_inj, String.toList_append, hmoves, List.nil_append]
    · -- Otherwise the datum would end in the quote that was refused.
      intro hempty
      obtain rfl : rest = [] := by simpa [← String.toList_inj] using hempty
      cases hrest with
      | nil => exact hD.denotes.last_ne_quote q (by simp) hq
      | cons next => exact absurd (nextPiece?_shorter next) (Nat.not_lt_zero _)

/-! ## Quotes in front of a symbol -/

/-- So many quotes in a row, from an offset on. -/
def quoteRow (offset : Nat) : Nat → List Token
  | 0 => []
  | k + 1 => ⟨.quote, offset, 1⟩ :: quoteRow (offset + 1) k

theorem quoteRow_length (k : Nat) : ∀ offset : Nat, (quoteRow offset k).length = k := by
  induction k with
  | zero => exact fun _ => rfl
  | succ k ih => exact fun offset => congrArg (· + 1) (ih (offset + 1))

theorem quoteRow_quote (k : Nat) : ∀ offset : Nat, ∀ t ∈ quoteRow offset k, t.lexeme = .quote := by
  induction k with
  | zero => exact fun _ => nofun
  | succ k ih => exact fun offset => List.forall_mem_cons.2 ⟨rfl, ih (offset + 1)⟩

theorem quoteRow_succ (k : Nat) :
    ∀ offset : Nat, quoteRow offset (k + 1) = quoteRow offset k ++ [⟨.quote, offset + k, 1⟩] := by
  induction k with
  | zero => exact fun _ => rfl
  | succ k ih =>
    intro offset
    rw [quoteRow, ih (offset + 1), Nat.add_right_comm]
    rfl

theorem quoteRow_pieces (more : List Char) (k : Nat) : ∀ seen : List Char,
    Pieces seen (List.replicate k '\'' ++ more) (quoteRow (utf8Length seen) k)
      (seen ++ List.replicate k '\'') more := by
  induction k with
  | zero =>
    intro seen
    rw [List.replicate_zero, List.append_nil]
    exact .nil
  | succ k ih =>
    intro seen
    have hs : BeginsToken ('\'' :: (List.replicate k '\'' ++ more)) := ⟨_, _, rfl, by decide, by decide⟩
    have hlater := ih (seen ++ ['\''])
    rw [utf8Length_append, List.append_assoc] at hlater
    exact (Pieces.first hs rfl).trans hlater

theorem quoteRow_denotes {p : List Token} {d : Datum} {n : Nat} (h : Denotes p d n) (k : Nat) : ∀ offset : Nat,
    Denotes (quoteRow offset k ++ p) (Nat.iterate Datum.quoted k d) (n + k) := by
  induction k with
  | zero => exact fun _ => h
  | succ k ih =>
    intro offset
    rw [Function.iterate_succ_apply']
    exact .quoted rfl (ih (offset + 1))

theorem lexFrom_nil (seen : List Char) : lexFrom seen [] = [] := by
  rw [lexFrom]
  split
  · rfl
  · next hnext => exact absurd (nextPiece?_shorter hnext) (Nat.not_lt_zero _)

theorem DatumText.ofPieces {text : List Char} {ts : List Token} {d : Datum} {n : Nat} (hs : BeginsToken text)
    (hp : Pieces [] text ts text []) (hd : Denotes ts d n) : DatumText text ts d n where
  lexed := by rw [lex, hp.lexed, lexFrom_nil, List.append_nil]
  denotes := hd
  starts t ht := by
    cases hp with
    | nil => cases ht
    | @cons _ _ _ _ p _ _ next item later =>
      cases ht
      obtain ⟨first, after, rfl, hfirst⟩ := hs
      rw [nextPiece?, gapOf_starts ⟨first, after, rfl, hfirst⟩] at next
      cases next
      exact congrArg Span.start (itemAt_eq_ok item).2
  ends := hp.moves.2

theorem utf8Length_quotes (k : Nat) : utf8Length (List.replicate k '\'') = k := by
  induction k with
  | zero => rfl
  | succ k ih =>
    rw [List.replicate_succ, utf8Length_cons, ih, Nat.add_comm]
    rfl

theorem symbol_pieces (seen : List Char) {more : List Char} (hmore : EndsWord more) :
    Pieces seen ('x' :: more) [⟨.sym "x", utf8Length seen, 1⟩] (seen ++ ['x']) more := by
  have hx : Pieces seen ['x'] [⟨.sym "x", utf8Length seen, 1⟩] (seen ++ ['x']) [] :=
    Pieces.first ⟨_, _, rfl, by decide, by decide⟩ rfl
  exact hx.append hmore

theorem symbol_denotes (offset : Nat) : Denotes [⟨.sym "x", offset, 1⟩] (.sym "x") 0 := .atom rfl

theorem quotedSymbol_text (k : Nat) : DatumText (List.replicate k '\'' ++ ['x']) (quoteRow 0 k ++ [⟨.sym "x", k, 1⟩])
    (Nat.iterate Datum.quoted k (.sym "x")) k := by
  have hquotes := quoteRow_pieces ['x'] k []
  have hsymbol := symbol_pieces (List.replicate k '\'') (show EndsWord [] by decide)
  rw [utf8Length_quotes] at hsymbol
  have hdenotes := quoteRow_denotes (symbol_denotes k) k 0
  rw [Nat.zero_add] at hdenotes
  refine .ofPieces ?_ (hquotes.trans hsymbol) hdenotes
  cases k with
  | zero => exact ⟨_, _, rfl, by decide, by decide⟩
  | succ k => exact ⟨_, _, rfl, by decide, by decide⟩

theorem quotedSymbol_list (k : Nat) :
    DatumText ('(' :: (List.replicate k '\'' ++ ['x', ')']))
      (⟨.openParen, 0, 1⟩ :: (quoteRow 1 k ++ [⟨.sym "x", 1 + k, 1⟩]) ++ [⟨.closeParen, 1 + k + 1, 1⟩])
      (.pair (Nat.iterate Datum.quoted k (.sym "x")) .nil) (k + 1) := by
  have hs : BeginsToken ('(' :: (List.replicate k '\'' ++ ['x', ')'])) := ⟨_, _, rfl, by decide, by decide⟩
  have hopen : Pieces [] ('(' :: (List.replicate k '\'' ++ ['x', ')'])) [⟨.openParen, 0, 1⟩] ['(']
      (List.replicate k '\'' ++ ['x', ')']) := .first hs rfl
  have hquotes := quoteRow_pieces ['x', ')'] k ['(']
  have hsymbol := symbol_pieces (['('] ++ List.replicate k '\'') (show EndsWord [')'] by decide)
  have hclose (seen : List Char) : Pieces seen [')'] [⟨.closeParen, utf8Length seen, 1⟩] (seen ++ [')']) [] :=
    .first ⟨_, _, rfl, by decide, by decide⟩ rfl
  have hpieces := hopen.trans (hquotes.trans (hsymbol.trans (hclose _)))
  have hitems := DenotesAll.cons (quoteRow_denotes (symbol_denotes (1 + k)) k 1) .nil
  rw [List.append_nil, Nat.zero_add, Nat.max_zero] at hitems
  refine .ofPieces hs ?_ (Denotes.list (o := ⟨.openParen, 0, 1⟩) rfl rfl hitems)
  simpa [utf8Length_quotes, Char.utf8Size, Nat.add_assoc] using hpieces

/-- A list of a symbol behind 256 quotes is refused and skipped, and the symbol behind it is read next. -/
theorem refuses_list_of_256_quotes :
    ∃ c place, (Cursor.start (.code (String.ofList ('(' :: (List.replicate 256 '\'' ++ ['x', ')'])) ++ " x"))).read =
        (c, .error (.text (.nestedTooDeep place)
          ⟨"<code>:1", String.ofList ('(' :: (List.replicate 256 '\'' ++ ['x', ')']))⟩)) ∧
      c.read.2 = .ok (some (.sym "x")) := by
  have hD := quotedSymbol_list 256
  rw [← String.toList_ofList (l := '(' :: _)] at hD
  obtain ⟨t, c, -, hskipped, -⟩ := @deep_datum_is_refused _ " x" _ _ _ hD (by decide) (by decide)
  obtain ⟨hread, hc, -⟩ := hskipped (Nat.zero_le _)
  refine ⟨c, t.span, hread, ?_⟩
  exact hc.read_done [' '] rfl (.blank (by decide) .nil) ⟨_, _, rfl, by decide, by decide⟩
    (symbol_pieces [] (by decide)) rfl

theorem quotedSymbol_left {k : Nat} (hk : k = nestingLimit) {R : String} (hR : EndsWord R.toList) :
    ∃ c, (Cursor.start (.code (String.ofList (List.replicate (k + 1) '\'' ++ ['x']) ++ R))).read =
        (c, .error (.text (.nestedTooDeep ⟨k, 1⟩) ⟨"<code>:1", String.ofList (List.replicate (k + 1) '\'')⟩)) ∧
      c.Before ("x" ++ R).toList := by
  have hD := quotedSymbol_text (k + 1)
  rw [← String.toList_ofList (l := _ ++ ['x']), quoteRow_succ, List.append_assoc] at hD
  have hfront : Pieces [] (String.ofList (List.replicate (k + 1) '\'' ++ ['x'])).toList
      (quoteRow 0 k ++ [⟨.quote, 0 + k, 1⟩]) (String.ofList (List.replicate (k + 1) '\'')).toList "x".toList := by
    rw [String.toList_ofList, String.toList_ofList, ← quoteRow_succ]
    exact quoteRow_pieces ['x'] (k + 1) []
  obtain ⟨c, hread, hc⟩ := hD.left_behind_quotes (quoteRow_quote k 0) rfl ((quoteRow_length k 0).trans hk) hfront hR
  rw [Nat.zero_add] at hread
  exact ⟨c, hread, hc⟩

/-- A symbol behind 257 quotes is not skipped with them: it is read next, though it belongs to the datum that was
refused. -/
theorem symbol_behind_257_quotes_is_read :
    DatumText (List.replicate 257 '\'' ++ ['x']) (quoteRow 0 257 ++ [⟨.sym "x", 257, 1⟩])
      (Nat.iterate Datum.quoted 257 (.sym "x")) 257 ∧
    ∃ c, (Cursor.start (.code (String.ofList (List.replicate 257 '\'' ++ ['x']) ++ " after"))).read =
        (c, .error (.text (.nestedTooDeep ⟨256, 1⟩) ⟨"<code>:1", String.ofList (List.replicate 257 '\'')⟩)) ∧
      c.read.2 = .ok (some (.sym "x")) ∧ (Cursor.start (.code " after")).read.2 = .ok (some (.sym "after")) := by
  obtain ⟨c, hread, hc⟩ := @quotedSymbol_left 256 rfl " after" (by decide)
  refine ⟨quotedSymbol_text 257, c, hread, ?_, ?_⟩
  · exact hc.read_done [] rfl .nil ⟨_, _, rfl, by decide, by decide⟩ (symbol_pieces [] (by decide)) rfl
  · exact (Cursor.before_start " after").read_done [' '] rfl (.blank (by decide) .nil) ⟨_, _, rfl, by decide, by decide⟩
      (.first ⟨_, _, rfl, by decide, by decide⟩ rfl) rfl

end LispSession
