import LispSession.Proofs.Nesting
/-!
# What is read can be printed

A value that was read holds no procedures, its symbols are words that say symbols, its numbers are numbers, and it is
nested no deeper than data may be (`Datum.Fits`).  Much of what the text said about it is gone: quotes have become
lists, a tail that was a list goes on along the list in front of it, blanks and spellings of numbers are forgotten.  But
none of this nests a value deeper, as a quote counts like a list and a tail counts one less.  So unless a number is
infinite, the value is printed in a notation that is read back as the same value (`read_values_read_back`).
-/
namespace LispSession

open LispSession.Parser

/-! ## Lexemes -/

/-- What the lexemes of a source are like: the name of a symbol is a word that says it, and a number is a number. -/
def Lexeme.Legible : Lexeme → Prop
  | .sym name => IsWord name.toList ∧ classifyWord name.toList = some (.sym name)
  | .num x => x.isNaN = false
  | _ => True

theorem legible_of_classifyWord {word : List Char} {lexeme : Lexeme} (hw : IsWord word)
    (h : classifyWord word = some lexeme) :
    lexeme.Legible := by
  have hsame := h
  unfold classifyWord at h
  split at h
  · cases h; trivial
  · split at h
    · cases h; trivial
    · split at h
      · cases h; trivial
      · split at h
        · cases h
        · split at h
          · next x _ =>
            cases h
            exact x.isNaN_toFloat
          · cases h
            rw [Lexeme.Legible, String.toList_ofList]
            exact ⟨hw, hsame⟩

namespace Cursor

variable {c c' : Cursor} {t : Token}

/-- Skipping what is blank or comment on a line leads to the end of the line or to something to read. -/
theorem rest_skipBuffered (c : Cursor) : c.skipBuffered.rest = [] ∨ BeginsToken c.skipBuffered.rest := by
  obtain ⟨gap, after, hrest, hne, hn, hgap⟩ | ⟨hn, -⟩ := @atmosphere_cases c.rest [] (.inr rfl)
  · rw [skipBuffered, hn, rest_advance hrest]
    rw [List.append_nil] at hgap
    obtain ⟨gap', ahead, hahead, hgap', -, hbegins⟩ | ⟨hall, -⟩ := gapOf_spec c.rest
    · obtain rfl := hgap.symm.trans hgap'
      obtain rfl := List.append_cancel_left (hrest.symm.trans hahead)
      exact .inr hbegins
    · exact absurd (List.append_right_eq_self.1 (hrest.symm.trans (hall.symm.trans hgap))) hne
  · rw [skipBuffered, hn]
    exact .inl c.rest_advance_all

theorem rest_skipAtmosphere (h : c.skipAtmosphere = (c', .ok ())) : c'.rest = [] ∨ BeginsToken c'.rest := by
  fun_induction skipAtmosphere c with
  | case1 c skipped _ =>
    obtain ⟨rfl, -⟩ := Prod.mk.inj h
    exact c.rest_skipBuffered
  | case2 c skipped _ c₁ _ _ ih => exact ih h
  | case3 c skipped hbuffered c₁ hline =>
    cases h
    have hend := isExhausted_of_nextLine hline (by simpa [hasBuffered] using hbuffered)
    exact .inl (by simpa [isExhausted, hasBuffered] using (Bool.and_eq_true_iff.1 hend).2)
  | case4 => cases h

theorem legible_of_takeWord {word : List Char} (hw : IsWord word) (h : c.takeWord word = (c', .ok t)) :
    t.lexeme.Legible := by
  unfold takeWord at h
  dsimp only at h
  split at h
  · next hword =>
    cases h
    exact legible_of_classifyWord hw hword
  · cases h

theorem legible_of_takeString (h : c.takeString = (c', .ok t)) : t.lexeme.Legible := by
  unfold takeString at h
  dsimp only at h
  split at h
  · cases h; trivial
  · cases h

theorem legible_of_takeToken {first : Char} {after : List Char} (hs : BeginsToken (first :: after))
    (h : c.takeToken first after = (c', .ok t)) : t.lexeme.Legible := by
  obtain hword | rfl | rfl | rfl | rfl := hs.kinds
  · rw [takeToken_of_word hword] at h
    have hinside : ∀ d ∈ wordOf after, isDelimiter d = false := fun d hd => by simpa using List.mem_takeWhile_imp hd
    exact legible_of_takeWord ⟨List.cons_ne_nil _ _, List.forall_mem_cons.2 ⟨hword, hinside⟩⟩ h
  · cases h; trivial
  · cases h; trivial
  · cases h; trivial
  · exact legible_of_takeString h

theorem legible_of_nextToken (h : c.nextToken = (c', .ok (some t))) : t.lexeme.Legible := by
  unfold nextToken at h
  split at h
  · cases h
  · next c₁ hskip =>
    split at h
    · cases h
    · next first after hrest =>
      have hbegins := (rest_skipAtmosphere hskip).resolve_left (by rw [hrest]; exact List.cons_ne_nil _ _)
      rw [hrest] at hbegins
      split at h
      · next htake =>
        cases h
        exact legible_of_takeToken hbegins htake
      · cases h

theorem Scans.legible {ts : List Token} (h : c.Scans ts c') : ∀ t ∈ ts, t.lexeme.Legible := by
  induction h with
  | nil => nofun
  | cons first _ ih => exact List.forall_mem_cons.2 ⟨legible_of_nextToken first, ih⟩

/-- A datum that was read came of some tokens. -/
theorem feedParser_done {p : Parser} {d : Datum} (h : c.feedParser p = (c', .ok d)) :
    ∃ ts, c.Scans ts c' ∧ (Step.more p).after ts = some (.done d) := by
  fun_induction feedParser p c with
  | case1 | case2 | case4 => cases h
  | case3 p c c₁ t htoken d' hpush =>
    cases h
    exact ⟨[t], .cons htoken .nil, by rw [Step.after, hpush]; rfl⟩
  | case5 p c c₁ t htoken p' hpush _ ih =>
    obtain ⟨ts, hscans, hafter⟩ := ih h
    exact ⟨t :: ts, .cons htoken hscans, by rw [Step.after, hpush, hafter]⟩

end Cursor

/-! ## Values -/

namespace Value

/-- No procedures, no symbols but those that words say, and no number that is none. -/
inductive Legible : Value → Prop
  | nil : Legible .nil
  | bool (b : Bool) : Legible (.bool b)
  | num {x : Float} (number : x.isNaN = false) : Legible (.num x)
  | str (label : Label) (text : String) : Legible (.str label text)
  | sym {name : String} (word : IsWord name.toList) (meaning : classifyWord name.toList = some (.sym name))
      (ne_nil : name ≠ "nil") : Legible (.sym name)
  | pair (label : Label) {car cdr : Value} (first : Legible car) (later : Legible cdr) : Legible (.pair label car cdr)

/-- All numbers in a value. -/
def numbers : Value → List Float
  | .num x => [x]
  | .pair _ car cdr => car.numbers ++ cdr.numbers
  | _ => []

theorem Legible.printable {v : Value} (h : Legible v) (hfinite : ∀ x ∈ v.numbers, x.isInf = false) : Printable v := by
  induction h with
  | nil => exact .nil
  | bool b => exact .bool b
  | num number => exact .num (isFinite_of_not number (hfinite _ List.mem_cons_self))
  | str label text => exact .str label text
  | sym word meaning ne_nil => exact .sym word meaning ne_nil
  | pair label _ _ ihCar ihCdr =>
    rw [numbers, List.forall_mem_append] at hfinite
    exact .pair label (ihCar hfinite.1) (ihCdr hfinite.2)

end Value

namespace Datum

theorem content_label (d : Datum) : ∀ next : Label, (d.label next).1.content = d := by
  induction d with
  | pair car cdr ihCar ihCdr =>
    intro next
    rw [label_pair, Value.content, ihCar, ihCdr]
  | _ => exact fun _ => rfl

/-- Labels are not printed. -/
theorem text_label (d : Datum) : ∀ next next' : Label, (d.label next).1.text = (d.label next').1.text ∧
    (d.label next).1.restText = (d.label next').1.restText := by
  induction d with
  | pair car cdr ihCar ihCdr =>
    intro next next'
    rw [label_pair, label_pair, ← String.toList_inj, ← String.toList_inj, Value.text_pair, Value.text_pair,
      Value.restText_pair, Value.restText_pair, (ihCar _ (next' + 1)).1, (ihCdr _ (car.label (next' + 1)).2).2]
    exact ⟨rfl, rfl⟩
  | _ => exact fun _ _ => ⟨rfl, rfl⟩

/-! ## The nesting of what is read -/

/-- However it is labelled, the datum is legible and nested at most this deep. -/
def Fits (n : Nat) (d : Datum) : Prop := ∀ next : Label, (d.label next).1.Legible ∧ (d.label next).1.depth ≤ n

theorem Fits.mono {n m : Nat} {d : Datum} (h : d.Fits n) (hle : n ≤ m) : d.Fits m :=
  fun next => ⟨(h next).1, Nat.le_trans (h next).2 hle⟩

theorem Fits.pair {n : Nat} {car cdr : Datum} (h : car.Fits n) (h' : cdr.Fits (n + 1)) :
    (Datum.pair car cdr).Fits (n + 1) := by
  intro next
  obtain ⟨hcar, hdepth⟩ := h (next + 1)
  obtain ⟨hcdr, hdepth'⟩ := h' (car.label (next + 1)).2
  rw [label_pair, Value.depth]
  exact ⟨.pair next hcar hcdr, Nat.max_le.2 ⟨Nat.succ_le_succ hdepth, hdepth'⟩⟩

theorem fits_nil (n : Nat) : Datum.nil.Fits n := fun _ => ⟨.nil, Nat.zero_le n⟩

theorem Fits.list {n : Nat} {ds : List Datum} {tail : Datum} (h : ∀ d ∈ ds, d.Fits n) (h' : tail.Fits (n + 1)) :
    (ds.foldr .pair tail).Fits (n + 1) := by
  induction ds with
  | nil => exact h'
  | cons d ds ih =>
    rw [List.forall_mem_cons] at h
    exact h.1.pair (ih h.2)

theorem Fits.quoted {n : Nat} {d : Datum} (h : d.Fits n) : d.quoted.Fits (n + 1) := by
  have hquote : (Datum.sym "quote").Fits n := fun _ => ⟨.sym (by decide) (by cbv) (by decide), Nat.zero_le n⟩
  exact hquote.pair (h.pair (fits_nil (n + 1)))

end Datum

theorem fits_of_atom {lexeme : Lexeme} {d : Datum} (hl : lexeme.Legible) (h : lexeme.atom? = some d) : d.Fits 0 := by
  intro next
  cases lexeme with
  | str text =>
    cases h
    exact ⟨.str next text, Nat.le_refl 0⟩
  | num x =>
    cases h
    exact ⟨.num hl, Nat.le_refl 0⟩
  | bool b =>
    cases h
    exact ⟨.bool b, Nat.le_refl 0⟩
  | sym name =>
    cases h
    by_cases hnil : name = "nil"
    · rw [if_pos hnil]
      exact ⟨.nil, Nat.le_refl 0⟩
    · rw [if_neg hnil]
      exact ⟨.sym hl.1 hl.2 hnil, Nat.le_refl 0⟩
  | openParen | closeParen | quote | dot => cases h

mutual

/-- **A datum is nested no deeper than its text**, whatever of the text is left in it. -/
theorem Denotes.fits {p : List Token} {d : Datum} {n : Nat} : Denotes p d n → (∀ t ∈ p, t.lexeme.Legible) → d.Fits n
  | .atom (t := t) h, hl => fits_of_atom (hl t List.mem_cons_self) h
  | .list (n := n) _ _ items, hl => by
    rw [List.forall_mem_append, List.forall_mem_cons] at hl
    exact .list (items.fits hl.1.2) (Datum.fits_nil (n + 1))
  | .dotted (n := n) (m := m) _ _ _ items _ tail, hl => by
    rw [List.forall_mem_append, List.forall_mem_append, List.forall_mem_cons, List.forall_mem_cons] at hl
    have hitems := items.fits hl.1.1.2
    have htail := tail.fits hl.1.2.2
    -- The tail goes on along the list: inside of it one level more is left for it than for the items.
    exact .list (fun d hd => (hitems d hd).mono (Nat.le_max_left n m))
      (htail.mono (Nat.le_succ_of_le (Nat.le_max_right n m)))
  | .quoted _ inner, hl => (inner.fits (List.forall_mem_cons.1 hl).2).quoted

theorem DenotesAll.fits {ps : List Token} {ds : List Datum} {n : Nat} :
    DenotesAll ps ds n → (∀ t ∈ ps, t.lexeme.Legible) → ∀ d ∈ ds, d.Fits n
  | .nil, _ => nofun
  | .cons (n := n) (m := m) first later, hl => by
    rw [List.forall_mem_append] at hl
    have hfirst := first.fits hl.1
    have hlater := later.fits hl.2
    exact List.forall_mem_cons.2
      ⟨hfirst.mono (Nat.le_max_left n m), fun d hd => (hlater d hd).mono (Nat.le_max_right n m)⟩

end

/-- **What a read brings is legible and nested within the limit.** -/
theorem Cursor.fits_of_read {c c' : Cursor} {d : Datum} (h : c.read = (c', .ok (some d))) : d.Fits nestingLimit := by
  obtain ⟨c₁, why, -, hread⟩ | ⟨c₁, -, hread⟩ | ⟨c₁, -, hread⟩ := read_cases c
  · cases h.symm.trans hread
  · cases h.symm.trans hread
  · rcases hparse : c₁.openDatum.feedParser .start with ⟨c₂, failure | d'⟩
    · rw [hparse] at hread
      cases h.symm.trans hread
    · rw [hparse] at hread
      cases h.symm.trans hread
      obtain ⟨ts, hscans, hafter⟩ := feedParser_done hparse
      obtain ⟨n, hn, hdenotes⟩ := after_explained (.reading .nil) hafter
      exact (hdenotes.fits hscans.legible).mono hn

/-- The text of a printable value within the limit is read back as what the value shows, and nothing is left of it. -/
theorem Value.Printable.read_text {v : Value} (h : v.Printable) (hdepth : v.depth ≤ nestingLimit) :
    ∃ c, (Cursor.start (.code v.text)).read = (c, .ok (some v.content)) ∧
      ∃ c', c.read = (c', .ok none) ∧ c'.isExhausted = true := by
  obtain ⟨ts, c, hts, hc, hread⟩ := h.read_code
  have hclosed : c.closeDatum.OnLastLine [] := ⟨hc.rest, hc.deliveries, hc.lasting, hc.console⟩
  have hdone := (h.meant.1 ts hts).after [] (by rw [List.length_nil, Nat.zero_add]; exact hdepth)
  exact ⟨c.closeDatum, hread _ hdone, Cursor.read_end hclosed⟩

/-- **Whatever is read can be printed and read back.**  A value that comes of any source is legible and nested at most
256 deep; and if no number in it is infinite, its text is read as an equal value, which has the same text again. -/
theorem read_values_read_back {c c' : Cursor} {d : Datum} (h : c.read = (c', .ok (some d))) (next : Label) :
    (d.label next).1.Legible ∧ (d.label next).1.depth ≤ 256 ∧
    ((∀ x ∈ (d.label next).1.numbers, x.isInf = false) →
      ∃ stop d', (Cursor.start (.code (d.label next).1.text)).read = (stop, .ok (some d')) ∧ d' = d ∧
        (∀ next', (d'.label next').1.isEqual (d.label next).1 = true ∧
          (d'.label next').1.text = (d.label next).1.text) ∧
        ∃ last, stop.read = (last, .ok none) ∧ last.isExhausted = true) := by
  obtain ⟨hlegible, hdepth⟩ := Cursor.fits_of_read h next
  refine ⟨hlegible, hdepth, fun hfinite => ?_⟩
  have hprintable := hlegible.printable hfinite
  obtain ⟨stop, hread, hend⟩ := hprintable.read_text hdepth
  have hequal := hprintable.isEqual
  rw [d.content_label] at hread hequal
  exact ⟨stop, d, hread, rfl, fun next' => ⟨hequal next', (d.text_label next' next).1⟩, hend⟩

/-- A quote, a tail that is a list, blanks and the spelling of a number do not come back, but the value does. -/
theorem quote_and_tail_read_back : ∃ d : Datum,
    (∃ c, (Cursor.start (.code "( 'a  . (+1.50 . (\"x\" #t)))")).read = (c, .ok (some d))) ∧
    (d.label 0).1.text = "((quote a) 1.5 \"x\" #t)" ∧ (∀ x ∈ (d.label 0).1.numbers, x.isInf = false) ∧
    ∃ c, (Cursor.start (.code "((quote a) 1.5 \"x\" #t)")).read = (c, .ok (some d)) := by
  have text : ((Datum.pair (Datum.sym "a").quoted
      (.pair (.num 1.5) (.pair (.str "x") (.pair (.bool true) .nil)))).label 0).1.text =
      "((quote a) 1.5 \"x\" #t)" := by decide +kernel
  have read : ∃ c, (Cursor.start (.code "( 'a  . (+1.50 . (\"x\" #t)))")).read =
      (c, .ok (some (.pair (Datum.sym "a").quoted (.pair (.num 1.5) (.pair (.str "x") (.pair (.bool true) .nil)))))) :=
    ⟨_, by with_unfolding_all rfl⟩
  have finite : ∀ x ∈ [(1.5 : Float)], x.isInf = false := by decide +kernel
  obtain ⟨c, hread⟩ := read
  obtain ⟨stop, d, hback, rfl, -⟩ := (read_values_read_back hread 0).2.2 finite
  rw [text] at hback
  exact ⟨_, ⟨c, hread⟩, text, finite, stop, hback⟩

end LispSession
