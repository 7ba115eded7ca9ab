import LispSession.Proofs.Printed.Notation
import LispSession.Proofs.Grammar
/-!
# Reading undoes printing

The text of a printable value is read back as that value, and nothing is left behind it; a value nested deeper than the
limit is refused as a whole.

A datum that is given up is skipped up to its last parenthesis.  `Parser.gaveUp` is where a parser stands then, with so
many lists still to be closed: a whole value leaves it as it is, and what is left of a list closes one of them
(`Value.skipped`).  So it does not matter at which element the limit was reached (`Value.Printable.givesUp`).
-/
namespace LispSession

open LispSession.Parser

namespace Parser

/-- A datum nested too deep, with so many of its lists still open. -/
def gaveUp (place : Span) : Nat → Step
  | 0 => .failed (.nestedTooDeep place)
  | unclosed + 1 => .more (.skipping place (unclosed + 1))

theorem push_skipping_closeParen {t : Token} (h : t.lexeme = .closeParen) (place : Span) (unclosed : Nat) :
    push (.skipping place (unclosed + 1)) t = gaveUp place unclosed := by
  obtain ⟨lexeme, span⟩ := t
  subst h
  cases unclosed <;> rfl

theorem push_skipping_openParen {t : Token} (h : t.lexeme = .openParen) (place : Span) (unclosed : Nat) :
    push (.skipping place unclosed) t = .more (.skipping place (unclosed + 1)) := by
  obtain ⟨lexeme, span⟩ := t
  subst h
  rfl

theorem push_openParen_limit {t : Token} (h : t.lexeme = .openParen) {stack : List OpenForm}
    (hlists : ∀ form ∈ stack, form.isList = true) (hn : ¬stack.length < nestingLimit) :
    push (.reading stack) t = gaveUp t.span (stack.length + 1) := by
  obtain ⟨lexeme, span⟩ := t
  subst h
  have hcount : (OpenForm.list span [] :: stack).countP OpenForm.isList = stack.length + 1 := by
    rw [List.countP_cons_of_pos rfl, List.countP_eq_length.2 hlists]
  rw [push, enter, if_neg hn, hcount]
  rfl

end Parser

namespace Value

theorem atomLexeme_skips (v : Value) {t : Token} (h : t.lexeme = v.atomLexeme) (place : Span) (unclosed : Nat) :
    push (.skipping place unclosed) t = .more (.skipping place unclosed) := by
  obtain ⟨lexeme, span⟩ := t
  subst h
  cases v <;> rfl

/-- While a datum is given up, the lexemes of a value close none of its lists, and those of what is left of a list close
one. -/
def Skipped (v : Value) (place : Span) (unclosed : Nat) : Prop :=
  (∀ ts : List Token, ts.map Token.lexeme = v.lexemes →
    (gaveUp place (unclosed + 1)).after ts = some (gaveUp place (unclosed + 1))) ∧
  (∀ ts : List Token, ts.map Token.lexeme = v.restLexemes →
    (gaveUp place (unclosed + 1)).after ts = some (gaveUp place unclosed))

theorem skipped_atom {v : Value} (hpair : ∀ label car cdr, v ≠ .pair label car cdr) (hnil : v ≠ .nil) (place : Span)
    (unclosed : Nat) : v.Skipped place unclosed := by
  rw [Skipped, lexemes.eq_2 _ hpair, restLexemes.eq_3 _ hnil hpair]
  refine ⟨fun ts hts => ?_, fun ts hts => ?_⟩
  · obtain ⟨t, rfl, ht⟩ := List.map_eq_singleton_iff.1 hts
    rw [gaveUp, Step.after, v.atomLexeme_skips ht]
    rfl
  · obtain ⟨dot, ts, rfl, hdot, hts⟩ := List.map_eq_cons_iff.1 hts
    obtain ⟨t, ts, rfl, ht, hts⟩ := List.map_eq_cons_iff.1 hts
    obtain ⟨c, rfl, hc⟩ := List.map_eq_singleton_iff.1 hts
    have hpush : push (.skipping place (unclosed + 1)) dot = .more (.skipping place (unclosed + 1)) := by
      obtain ⟨lexeme, span⟩ := dot
      subst hdot
      rfl
    rw [gaveUp, Step.after, hpush, Step.after, v.atomLexeme_skips ht, Step.after, push_skipping_closeParen hc]
    rfl

/-- **A datum that is given up is skipped value by value.** -/
theorem skipped (v : Value) (place : Span) : ∀ unclosed : Nat, v.Skipped place unclosed := by
  induction v with
  | nil =>
    refine fun unclosed => ⟨fun ts hts => ?_, fun ts hts => ?_⟩
    · obtain ⟨t, rfl, ht⟩ := List.map_eq_singleton_iff.1 hts
      rw [gaveUp, Step.after, atomLexeme_skips .nil ht]
      rfl
    · obtain ⟨c, rfl, hc⟩ := List.map_eq_singleton_iff.1 hts
      rw [gaveUp, Step.after, push_skipping_closeParen hc]
      rfl
  | pair label car cdr ihCar ihCdr =>
    refine fun unclosed => ⟨fun ts hts => ?_, fun ts hts => ?_⟩
    · obtain ⟨o, ts, rfl, ho, hts⟩ := List.map_eq_cons_iff.1 hts
      obtain ⟨p, r, rfl, hp, hr⟩ := List.map_eq_append_iff.1 hts
      rw [gaveUp, Step.after, push_skipping_openParen ho, ← gaveUp,
        Step.after_append_of _ ((ihCar (unclosed + 1)).1 p hp)]
      exact (ihCdr (unclosed + 1)).2 r hr
    · obtain ⟨p, r, rfl, hp, hr⟩ := List.map_eq_append_iff.1 hts
      rw [Step.after_append_of _ ((ihCar unclosed).1 p hp)]
      exact (ihCdr unclosed).2 r hr
  | _ =>
    intro unclosed
    refine skipped_atom ?_ ?_ place unclosed <;> nofun

/-- **A value that is nested too deep is given up**, inside of whatever lists are open. -/
theorem Printable.givesUp {v : Value} (h : Printable v) :
    ∀ stack : List OpenForm, (∀ form ∈ stack, form.isList = true) → nestingLimit < stack.length + v.depth →
      (∀ ts : List Token, ts.map Token.lexeme = v.lexemes → stack.length ≤ nestingLimit →
        ∃ place, (Step.more (.reading stack)).after ts = some (gaveUp place stack.length)) ∧
      (∀ ts : List Token, ts.map Token.lexeme = v.restLexemes → stack.length < nestingLimit → ∀ opener items,
        ∃ place, (Step.more (.reading (.list opener items :: stack))).after ts = some (gaveUp place stack.length)) := by
  induction h with
  | @pair label car cdr first later ihCar ihCdr =>
    intro stack hlists hdeep
    rw [depth] at hdeep
    -- The elements from `car` on, behind the parenthesis or behind other items.
    have elements : ∀ p r : List Token, p.map Token.lexeme = car.lexemes → r.map Token.lexeme = cdr.restLexemes →
        stack.length < nestingLimit → ∀ opener items,
        ∃ place, (Step.more (.reading (.list opener items :: stack))).after (p ++ r) =
            some (gaveUp place stack.length) := by
      intro p r hp hr hn opener items
      by_cases hcar : nestingLimit < stack.length + 1 + car.depth
      · obtain ⟨place, hplace⟩ := (ihCar (.list opener items :: stack) (by simpa [OpenForm.isList] using hlists)
          (by simpa using hcar)).1 p hp hn
        refine ⟨place, ?_⟩
        rw [Step.after_append_of _ hplace]
        exact (cdr.skipped place stack.length).2 r hr
      · have hitem := (first.meant.1 p hp).after (.list opener items :: stack) (by simp only [List.length_cons]; omega)
        rw [Step.after_append_of _ hitem, deliver]
        exact (ihCdr stack hlists (by omega)).2 r hr hn opener (car.content :: items)
    refine ⟨fun ts hts hn => ?_, fun ts hts hn opener items => ?_⟩
    · obtain ⟨o, ts, rfl, ho, hts⟩ := List.map_eq_cons_iff.1 hts
      obtain ⟨p, r, rfl, hp, hr⟩ := List.map_eq_append_iff.1 hts
      by_cases hroom : stack.length < nestingLimit
      · rw [Step.after, push_openParen ho stack hroom]
        exact elements p r hp hr hroom o.span []
      · refine ⟨o.span, ?_⟩
        rw [Step.after, push_openParen_limit ho hlists hroom,
          Step.after_append_of _ ((car.skipped o.span stack.length).1 p hp)]
        exact (cdr.skipped o.span stack.length).2 r hr
    · obtain ⟨p, r, rfl, hp, hr⟩ := List.map_eq_append_iff.1 hts
      exact elements p r hp hr hn opener items
  | _ =>
    intro stack _ hdeep
    refine ⟨fun ts hts hn => absurd hdeep ?_, fun ts hts hn => absurd hdeep ?_⟩
    · exact Nat.not_lt.2 hn
    · exact Nat.not_lt.2 (Nat.le_of_lt hn)

end Value

/-! ## Labels -/

namespace Datum

theorem labelAfter_eq (d : Datum) : ∀ (done : List (Label × Value)) (next : Label),
    d.labelAfter done next = (labelAfter.close done (d.label next).1, (d.label next).2) := by
  induction d with
  | pair car cdr ihCar ihCdr =>
    intro done next
    rw [label, labelAfter, labelAfter]
    dsimp only
    rw [ihCdr, ihCdr [_]]
    rfl
  | _ => exact fun _ _ => rfl

/-- The elements of a list are labelled one after the other, each behind the pair it stands in. -/
theorem label_pair (car cdr : Datum) (next : Label) :
    ((pair car cdr).label next).1 = .pair next (car.label (next + 1)).1 (cdr.label (car.label (next + 1)).2).1 := by
  rw [label, labelAfter]
  dsimp only
  rw [labelAfter_eq]
  rfl

end Datum

namespace Value

/-- Labelling what a value shows gives a value equal to it. -/
theorem Printable.isEqual {v : Value} (h : Printable v) :
    ∀ next : Label, (v.content.label next).1.isEqual v = true := by
  induction h with
  | nil => exact fun _ => rfl
  | bool b => exact fun _ => beq_self_eq_true b
  | num finite => exact fun _ => beq_self_of_isFinite finite
  | str label text => exact fun _ => beq_self_eq_true text
  | sym => exact fun _ => beq_self_eq_true _
  | pair label _ _ ihCar ihCdr =>
    intro next
    rw [content, Datum.label_pair, Value.isEqual, ihCar, ihCdr]
    simp

end Value

/-! ## A text on one line -/

theorem linesAfter_of_notMem {text : List Char} (h : '\n' ∉ text) (line : List Char) :
    linesAfter '\n' [] line text = ([], line.reverse ++ text) := by
  induction text generalizing line with
  | nil => simp [linesAfter]
  | cons c cs ih =>
    rw [List.mem_cons, not_or] at h
    rw [linesAfter, if_neg (by simpa using Ne.symm h.1), ih h.2, List.reverse_cons, List.append_assoc]
    rfl

namespace Cursor

theorem seekDatum_of_starts {c : Cursor} (hs : BeginsToken c.rest) (fetched : Bool) :
    c.seekDatum fetched = (c, .ok true) := by
  have hstay := @skipBuffered_of_starts c c.rest [] (by simp) hs
  have hbuffered : c.hasBuffered = true := by
    obtain ⟨first, after, hr, -, -⟩ := hs
    simp [hasBuffered, hr]
  rw [seekDatum]
  simp only [hstay, hbuffered, if_true]

theorem seekDatum_of_nextLine {c c' : Cursor} {found : Bool} (hr : c.rest = []) (h : c.nextLine = (c', .ok found)) :
    c.seekDatum false = if found then c'.seekDatum true else (c', .ok false) := by
  have hstay : c.skipBuffered = c := by rw [skipBuffered, hr, atmosphere, atmosphereFrom, advance_zero]
  exact seekDatum_of_used (.inl rfl) (by rw [hstay, hr]) (by rw [hstay, h])

theorem seekDatum_code {text : String} (h : '\n' ∉ text.toList) (hs : BeginsToken text.toList) :
    ∃ c, (start (.code text)).seekDatum false = (c, .ok true) ∧ c.OnLastLine text.toList := by
  have hstart : start (.code text) = ⟨Source.codeName, [.line text.toList], none, none, none, [], 0, false, none⟩ := by
    have hne : text.toList ≠ [] := by
      obtain ⟨first, after, htext, -, -⟩ := hs
      simp [htext]
    simp only [start, Source.feed, Feed.ofText, splitLines, linesAfter_of_notMem h, Source.name]
    rw [if_neg (by simpa using hne)]
    rfl
  rw [hstart, seekDatum_of_nextLine rfl rfl, if_pos rfl, seekDatum_of_starts hs]
  exact ⟨_, rfl, rfl, rfl, rfl, rfl⟩

theorem read_end {c : Cursor} (h : c.OnLastLine []) : ∃ c', c.read = (c', .ok none) ∧ c'.isExhausted = true := by
  obtain ⟨c', hline⟩ : ∃ c', c.nextLine = (c', .ok false) := by
    unfold nextLine
    split
    · exact ⟨c, rfl⟩
    · rw [showPrompt, h.console]
      dsimp only
      rw [takeDelivery, h.deliveries, h.lasting]
      exact ⟨_, rfl⟩
  refine ⟨c', ?_, isExhausted_of_nextLine hline h.rest⟩
  rw [read, seekDatum_of_nextLine h.rest hline]
  rfl

end Cursor

/-- What is read from the text of a value is what the parser makes of its lexemes, and all of the text is used up. -/
theorem Value.Printable.read_code {v : Value} (h : v.Printable) : ∃ (ts : List Token) (c : Cursor),
    ts.map Token.lexeme = v.lexemes ∧ c.OnLastLine [] ∧ ∀ s, (Step.more .start).after ts = some s →
      (Cursor.start (.code v.text)).read = ((c.settle s).1.closeDatum, (c.settle s).2.map some) := by
  obtain ⟨c, hseek, hc⟩ := Cursor.seekDatum_code h.written.1.oneLine h.written.1.starts
  have hopen : c.openDatum.OnLastLine (v.text.toList ++ []) :=
    ⟨by rw [List.append_nil]; exact hc.rest, hc.deliveries, hc.lasting, hc.console⟩
  obtain ⟨ts, c', hscan, hts, hc'⟩ := h.written.1.spells [] nofun c.openDatum hopen
  refine ⟨ts, c', hts, hc', fun s hs => ?_⟩
  have hfeed : c.openDatum.feedParser .start = c'.settle s := hscan.settle hs
  rw [Cursor.read, hseek]
  dsimp only
  rw [hfeed]

open Value in
/-- **Reading undoes printing.**  The text of a printable value nested at most 256 deep is read back as that value; a
deeper one is refused as nested too deep.  In both cases the next read finds nothing left. -/
theorem reading_undoes_printing {v : Value} (h : Printable v) :
    (v.depth ≤ 256 → ∃ c d, (Cursor.start (.code v.text)).read = (c, .ok (some d)) ∧ d = v.content ∧
      (∀ next, (d.label next).1.isEqual v = true) ∧ ∃ c', c.read = (c', .ok none) ∧ c'.isExhausted = true) ∧
    (256 < v.depth → ∃ c place excerpt,
      (Cursor.start (.code v.text)).read = (c, .error (.text (.nestedTooDeep place) excerpt)) ∧
      ∃ c', c.read = (c', .ok none) ∧ c'.isExhausted = true) := by
  obtain ⟨ts, c, hts, hc, hread⟩ := h.read_code
  have hclosed : c.closeDatum.OnLastLine [] := ⟨hc.rest, hc.deliveries, hc.lasting, hc.console⟩
  refine ⟨fun hdepth => ?_, fun hdepth => ?_⟩
  · have hdone := (h.meant.1 ts hts).after [] (by rw [List.length_nil, Nat.zero_add]; exact hdepth)
    exact ⟨c.closeDatum, v.content, hread _ hdone, rfl, h.isEqual, Cursor.read_end hclosed⟩
  · obtain ⟨place, hplace⟩ := (h.givesUp [] (by simp) (by rw [List.length_nil, Nat.zero_add]; exact hdepth)).1 ts hts
      (Nat.zero_le _)
    exact ⟨c.closeDatum, place, _, hread _ hplace, Cursor.read_end hclosed⟩

open Value in
/-- A dotted list of odd words is read back, and `(((…nil…)))` with 257 parentheses is refused. -/
theorem reads_back_odd_words_and_refuses_257 :
    (∃ c, (Cursor.start (.code "(.. \"\\\"\\\\\\n\" (-0.5 . 1+))")).read =
      (c, .ok (some (.pair (.sym "..") (.pair (.str "\"\\\n") (.pair (.pair (.num (-0.5)) (.sym "1+")) .nil)))))) ∧
    (∃ c place excerpt, (Cursor.start (.code (Nat.iterate (.pair 0 · .nil) 257 .nil : Value).text)).read =
      (c, .error (.text (.nestedTooDeep place) excerpt))) := by
  have odd : Printable
      (.pair 0 (.sym "..") (.pair 1 (.str 2 "\"\\\n") (.pair 3 (.pair 4 (.num (-0.5)) (.sym "1+")) .nil))) :=
    .pair 0 (.sym (by decide) (by cbv) (by decide)) (.pair 1 (.str 2 _)
      (.pair 3 (.pair 4 (.num (by decide +kernel)) (.sym (by decide) (by cbv) (by decide))) .nil))
  have text : (Value.pair 0 (.sym "..") (.pair 1 (.str 2 "\"\\\n")
      (.pair 3 (.pair 4 (.num (-0.5)) (.sym "1+")) .nil))).text = "(.. \"\\\"\\\\\\n\" (-0.5 . 1+))" := by
        decide +kernel
  have deep : ∀ n, Printable (Nat.iterate (.pair 0 · .nil) n .nil) ∧
      (Nat.iterate (.pair 0 · .nil) n Value.nil).depth = n := by
    intro n
    induction n with
    | zero => exact ⟨.nil, rfl⟩
    | succ n ih =>
      rw [Function.iterate_succ_apply', depth, ih.2]
      exact ⟨.pair 0 ih.1 .nil, rfl⟩
  refine ⟨?_, ?_⟩
  · obtain ⟨c, d, hread, rfl, -, -⟩ := (reading_undoes_printing odd).1 (by decide)
    rw [text] at hread
    exact ⟨c, hread⟩
  · obtain ⟨c, place, excerpt, hread, -⟩ := (reading_undoes_printing (deep 257).1).2 (by rw [(deep 257).2]; decide)
    exact ⟨c, place, excerpt, hread⟩

end LispSession
