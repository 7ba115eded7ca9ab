import LispSession.Proofs.Printed.Legible
/-!
# The first token that cannot be right

A row of tokens is viable if some datum within the limit begins with it.  The parser refuses a datum at the first token
that leaves the viable rows (`FirstWrong`), whatever it is that makes the token wrong: what is open around it, a tail
that was complete, or the limit.  What was read up to there is viable because the forms that are open can always be
closed (`Opened.completes`); what follows the wrong token does not matter because nothing that was refused or given up
ever becomes a datum (`Parser.Dead`).

Where the tokens end too early, the innermost form still open is to blame: a quote that stands last, or else the
parenthesis behind which all others are closed (`InnermostOpen`).
-/
namespace LispSession

open LispSession.Parser

/-! ## Parentheses -/

namespace Lexeme

def isOpener : Lexeme → Bool
  | .openParen => true
  | _ => false

def isCloser : Lexeme → Bool
  | .closeParen => true
  | _ => false

end Lexeme

/-- How many lists a row of tokens opens. -/
def openers (ts : List Token) : Nat := ts.countP (·.lexeme.isOpener)

/-- How many lists a row of tokens closes. -/
def closers (ts : List Token) : Nat := ts.countP (·.lexeme.isCloser)

@[simp] theorem openers_append (ts us : List Token) : openers (ts ++ us) = openers ts + openers us := List.countP_append

@[simp] theorem closers_append (ts us : List Token) : closers (ts ++ us) = closers ts + closers us := List.countP_append

theorem openers_cons (t : Token) (ts : List Token) : openers (t :: ts) = openers [t] + openers ts :=
  openers_append [t] ts

theorem closers_cons (t : Token) (ts : List Token) : closers (t :: ts) = closers [t] + closers ts :=
  closers_append [t] ts

theorem openers_openParen {t : Token} (h : t.lexeme = .openParen) : openers [t] = 1 ∧ closers [t] = 0 := by
  simp [openers, closers, Lexeme.isOpener, Lexeme.isCloser, h]

theorem closers_closeParen {t : Token} (h : t.lexeme = .closeParen) : openers [t] = 0 ∧ closers [t] = 1 := by
  simp [openers, closers, Lexeme.isOpener, Lexeme.isCloser, h]

theorem no_parenthesis {t : Token} (hopen : t.lexeme ≠ .openParen) (hclose : t.lexeme ≠ .closeParen) :
    openers [t] = 0 ∧ closers [t] = 0 := by
  obtain ⟨lexeme, span⟩ := t
  cases lexeme with
  | openParen => exact absurd rfl hopen
  | closeParen => exact absurd rfl hclose
  | quote | dot | str | num | bool | sym => exact ⟨rfl, rfl⟩

/-- Every list that is opened is closed, and none is closed that was not opened before. -/
structure Balanced (ts : List Token) : Prop where
  front : ∀ p, p <+: ts → closers p ≤ openers p
  even : closers ts = openers ts

/-- No list is closed that was not opened before. -/
def ClosesOwn (ts : List Token) : Prop := ∀ p, p <+: ts → closers p ≤ openers p

theorem ClosesOwn.nil : ClosesOwn [] := fun p hp => by rw [List.prefix_nil.1 hp]; exact Nat.le_refl _

theorem ClosesOwn.cons {t : Token} {ts : List Token} (ht : t.lexeme ≠ .closeParen) (h : ClosesOwn ts) :
    ClosesOwn (t :: ts) := by
  intro p hp
  cases p with
  | nil => exact Nat.le_refl _
  | cons t' p =>
    obtain ⟨rfl, hp'⟩ := List.cons_prefix_cons.1 hp
    have hfront := h p hp'
    have hcloses : closers [t'] = 0 := by
      by_cases hopen : t'.lexeme = .openParen
      · exact (openers_openParen hopen).2
      · exact (no_parenthesis hopen ht).2
    rw [closers_cons, openers_cons]
    omega

theorem ClosesOwn.behind {ts us : List Token} (h : Balanced ts) (h' : ClosesOwn us) : ClosesOwn (ts ++ us) := by
  intro p ⟨r, hr⟩
  obtain ⟨p', rfl, hus⟩ | ⟨c, hts, -⟩ := List.append_eq_append_iff.1 hr.symm
  · have hfront := h' p' ⟨r, hus.symm⟩
    have heven := h.even
    simp only [closers_append, openers_append]
    omega
  · exact h.front p ⟨c, hts.symm⟩

theorem Balanced.nil : Balanced [] := ⟨ClosesOwn.nil, rfl⟩

theorem Balanced.single {t : Token} (hopen : t.lexeme ≠ .openParen) (hclose : t.lexeme ≠ .closeParen) :
    Balanced [t] := by
  obtain ⟨hopeners, hclosers⟩ := no_parenthesis hopen hclose
  exact ⟨ClosesOwn.nil.cons hclose, hclosers.trans hopeners.symm⟩

theorem Balanced.append {ts us : List Token} (h : Balanced ts) (h' : Balanced us) : Balanced (ts ++ us) :=
  ⟨ClosesOwn.behind h h'.front, by rw [closers_append, openers_append, h.even, h'.even]⟩

theorem Balanced.list {o c : Token} {ts : List Token} (ho : o.lexeme = .openParen) (hc : c.lexeme = .closeParen)
    (h : Balanced ts) :
    Balanced (o :: ts ++ [c]) := by
  obtain ⟨hoOpens, hoCloses⟩ := openers_openParen ho
  obtain ⟨hcOpens, hcCloses⟩ := closers_closeParen hc
  have heven := h.even
  refine ⟨fun p hp => ?_, ?_⟩
  · cases p with
    | nil => exact Nat.le_refl _
    | cons t p =>
      rw [List.cons_append] at hp
      obtain ⟨rfl, hp'⟩ := List.cons_prefix_cons.1 hp
      rw [closers_cons, openers_cons]
      obtain rfl | hp' := List.prefix_concat_iff.1 hp'
      · simp only [closers_append, openers_append]
        omega
      · have hfront := h.front p hp'
        omega
  · rw [List.cons_append, closers_cons, openers_cons, closers_append, openers_append]
    omega

mutual

/-- **A datum closes all lists that it opens.** -/
theorem Denotes.balanced {p : List Token} {d : Datum} {n : Nat} : Denotes p d n → Balanced p
  | .atom h => .single (fun ht => by rw [ht] at h; cases h) (fun ht => by rw [ht] at h; cases h)
  | .list ho hc items => .list ho hc items.balanced
  | .dotted ho hdot hc items _ tail => by
    have hbehind : Balanced ([_] ++ _) :=
      (Balanced.single (by rw [hdot]; nofun) (by rw [hdot]; nofun)).append tail.balanced
    have hall := Balanced.list ho hc (items.balanced.append hbehind)
    simpa using hall
  | .quoted hq inner => (Balanced.single (by rw [hq]; nofun) (by rw [hq]; nofun)).append inner.balanced

theorem DenotesAll.balanced {ps : List Token} {ds : List Datum} {n : Nat} : DenotesAll ps ds n → Balanced ps
  | .nil => .nil
  | .cons first later => first.balanced.append later.balanced

end

/-- The parenthesis of these tokens that is open while all behind it are closed. -/
def InnermostOpen (ts : List Token) (o : Token) : Prop :=
  ∃ q inside, ts = q ++ o :: inside ∧ o.lexeme = .openParen ∧ Balanced inside

/-! ## Viable rows -/

/-- Some datum within the limit begins with these tokens. -/
def Viable (q : List Token) : Prop := ∃ more d n, n ≤ nestingLimit ∧ Denotes (q ++ more) d n

/-- Up to this token all could still be right, and with it nothing can. -/
def FirstWrong (q : List Token) (t : Token) : Prop := Viable q ∧ ¬Viable (q ++ [t])

/-- **Whatever is open can be closed** behind one more datum. -/
theorem Opened.completes {stack : List OpenForm} {q : List Token} (h : Opened stack q) :
    ∀ {p : List Token} {d : Datum} {n : Nat},
      Denotes p d n → stack.length + n ≤ nestingLimit → Viable (q ++ p) := by
  induction h with
  | nil => exact fun {p d n} hd hn => ⟨[], d, n, by simpa using hn, by simpa using hd⟩
  | list outer ho inside hn ih =>
    intro p d n hd hroom
    have hlist := Denotes.list (c := ⟨.closeParen, 0, 0⟩) ho rfl (inside.snoc hd)
    obtain ⟨more, d', n', hn', hall⟩ := ih hlist (by simp only [List.length_cons] at hroom; omega)
    exact ⟨⟨.closeParen, 0, 0⟩ :: more, d', n', hn', by simpa using hall⟩
  | tail outer ho hdot inside hne hn ih =>
    intro p d n hd hroom
    have hlist := Denotes.dotted (c := ⟨.closeParen, 0, 0⟩) ho hdot rfl inside (by simpa using hne) hd
    obtain ⟨more, d', n', hn', hall⟩ := ih hlist (by simp only [List.length_cons] at hroom; omega)
    exact ⟨⟨.closeParen, 0, 0⟩ :: more, d', n', hn', by simpa using hall⟩
  | quote outer ht hn ih =>
    intro p d n hd hroom
    obtain ⟨more, d', n', hn', hall⟩ := ih (.quoted ht hd) (by simp only [List.length_cons] at hroom; omega)
    exact ⟨more, d', n', hn', by simpa using hall⟩

theorem Viable.of_append {q r : List Token} : Viable (q ++ r) → Viable q
  | ⟨more, d, n, hn, h⟩ => ⟨r ++ more, d, n, hn, by rwa [← List.append_assoc]⟩

theorem Opened.viable {stack : List OpenForm} {q : List Token} (h : Opened stack q) : Viable q :=
  (h.completes (.atom (t := ⟨.bool true, 0, 0⟩) rfl) h.length_le).of_append

/-- What is read while nothing is being skipped is viable. -/
theorem Parser.Explained.viable {p : Parser} {q : List Token} (h : p.Explained q)
    (hp : ∀ place unclosed, p ≠ .skipping place unclosed) :
    Viable q := by
  cases h with
  | reading opened => exact opened.viable
  | closing outer ho hdot inside hne hn tail hm =>
    have hlist := Denotes.dotted (c := ⟨.closeParen, 0, 0⟩) ho hdot rfl inside (by simpa using hne) tail
    have hall := outer.completes hlist (by omega)
    exact Viable.of_append (r := [⟨.closeParen, 0, 0⟩]) (by simpa using hall)
  | skipping => exact absurd rfl (hp _ _)

namespace Parser

/-! ## Nothing comes of what was refused -/

/-- No datum comes of this answer, whatever tokens follow. -/
def Dead (s : Step) : Prop := ∀ ts d, s.after ts ≠ some (.done d)

theorem dead_failed (error : SyntaxError) : Dead (.failed error) := fun ts d h => by cases ts <;> cases h

theorem dead_gaveUp (place : Span) : ∀ unclosed : Nat, Dead (gaveUp place unclosed) := by
  intro unclosed ts d
  induction ts generalizing unclosed with
  | nil => cases unclosed <;> exact nofun
  | cons t ts ih =>
    cases unclosed with
    | zero => exact nofun
    | succ unclosed =>
      by_cases hopen : t.lexeme = .openParen
      · rw [gaveUp_open hopen]
        exact ih (unclosed + 2)
      · by_cases hclose : t.lexeme = .closeParen
        · rw [gaveUp, Step.after, push_skipping_closeParen hclose]
          exact ih unclosed
        · rw [gaveUp_inside hopen hclose]
          exact ih (unclosed + 1)

end Parser

/-- **A token is wrong if the parser, fed with it, is past hope.** -/
theorem FirstWrong.of_dead {q : List Token} {t : Token} {p : Parser}
    (hafter : (Step.more .start).after q = some (.more p)) (hq : Viable q) (hdead : Dead (p.push t)) :
    FirstWrong q t := by
  refine ⟨hq, fun ⟨more, d, n, hn, h⟩ => ?_⟩
  -- A datum that begins with these tokens would be read, though nothing can come of the last one.
  have hdone : (Step.more .start).after (q ++ [t] ++ more) = some (.done d) := h.after [] (by simpa using hn)
  have hpush : (Step.more .start).after (q ++ [t]) = some (p.push t) := Step.after_append_of [t] hafter
  rw [Step.after_append_of more hpush] at hdone
  exact hdead more d hdone

namespace Parser

/-! ## What a token can do -/

/-- A complete datum leaves a parser that reads on, or one that can only close a list, or is the answer. -/
theorem deliver_cases (d : Datum) (stack : List OpenForm) :
    (∃ d', deliver d stack = .done d') ∨ (∃ stack', deliver d stack = .more (.reading stack')) ∨
    ∃ opener items tail stack', deliver d stack = .more (.closing opener items tail stack') := by
  induction stack generalizing d with
  | nil => exact .inl ⟨d, rfl⟩
  | cons form stack ih =>
    cases form with
    | list opener items => exact .inr (.inl ⟨_, rfl⟩)
    | tail opener items => exact .inr (.inr ⟨_, _, _, _, rfl⟩)
    | quote place => exact ih d.quoted

theorem deliver_ne_failed (d : Datum) (stack : List OpenForm) (error : SyntaxError) :
    deliver d stack ≠ .failed error := by
  obtain ⟨d', h⟩ | ⟨stack', h⟩ | ⟨opener, items, tail, stack', h⟩ := deliver_cases d stack <;> rw [h] <;> nofun

theorem deliver_ne_skipping (d : Datum) (stack : List OpenForm) (place : Span) (unclosed : Nat) :
    deliver d stack ≠ .more (.skipping place unclosed) := by
  obtain ⟨d', h⟩ | ⟨stack', h⟩ | ⟨opener, items, tail, stack', h⟩ := deliver_cases d stack <;> rw [h] <;> nofun

theorem enter_cases (form : OpenForm) (place : Span) (stack : List OpenForm) :
    enter form place stack = .more (.reading (form :: stack)) ∨
    nestingLimit ≤ stack.length ∧ ∃ unclosed, enter form place stack = gaveUp place unclosed := by
  by_cases hroom : stack.length < nestingLimit
  · exact .inl (by rw [enter, if_pos hroom])
  · refine .inr ⟨Nat.not_lt.1 hroom, listsIn (form :: stack), ?_⟩
    rw [enter, if_neg hroom, listsIn]
    cases (form :: stack).countP OpenForm.isList <;> rfl

/-- What a token does to a parser that reads: it completes a datum, opens something or puts a dot, is refused, or finds
no room. -/
theorem push_reading_cases (stack : List OpenForm) (t : Token) :
    (∃ d stack', push (.reading stack) t = deliver d stack') ∨
    (∃ stack', push (.reading stack) t = .more (.reading stack')) ∨
    (t.lexeme = .closeParen ∨ t.lexeme = .dot) ∧
    push (.reading stack) t = .failed (.unexpectedToken t.lexeme.kind t.span) ∨
    nestingLimit ≤ stack.length ∧ (t.lexeme = .openParen ∨ t.lexeme = .quote) ∧
      ∃ unclosed, push (.reading stack) t = gaveUp t.span unclosed := by
  obtain ⟨lexeme, span⟩ := t
  cases lexeme with
  | openParen =>
    obtain h | ⟨hfull, h⟩ := enter_cases (.list span []) span stack
    · exact .inr (.inl ⟨_, h⟩)
    · exact .inr (.inr (.inr ⟨hfull, .inl rfl, h⟩))
  | quote =>
    obtain h | ⟨hfull, h⟩ := enter_cases (.quote span) span stack
    · exact .inr (.inl ⟨_, h⟩)
    · exact .inr (.inr (.inr ⟨hfull, .inr rfl, h⟩))
  | closeParen =>
    cases stack with
    | nil => exact .inr (.inr (.inl ⟨.inl rfl, rfl⟩))
    | cons form stack =>
      cases form with
      | list opener items => exact .inl ⟨_, _, rfl⟩
      | tail | quote => exact .inr (.inr (.inl ⟨.inl rfl, rfl⟩))
  | dot =>
    cases stack with
    | nil => exact .inr (.inr (.inl ⟨.inr rfl, rfl⟩))
    | cons form stack =>
      cases form with
      | list opener items =>
        cases items with
        | nil => exact .inr (.inr (.inl ⟨.inr rfl, rfl⟩))
        | cons item items => exact .inr (.inl ⟨_, rfl⟩)
      | tail | quote => exact .inr (.inr (.inl ⟨.inr rfl, rfl⟩))
  | str | num | bool | sym => exact .inl ⟨_, _, rfl⟩

/-- Behind a dotted tail a token closes the list or is refused. -/
theorem push_closing_cases (opener : Span) (items : List Datum) (tail : Datum) (stack : List OpenForm) (t : Token) :
    (∃ d stack', push (.closing opener items tail stack) t = deliver d stack') ∨
    push (.closing opener items tail stack) t = .failed (.expectedCloseParen opener t.lexeme.kind t.span) := by
  obtain ⟨lexeme, span⟩ := t
  cases lexeme with
  | closeParen => exact .inl ⟨_, _, rfl⟩
  | openParen | quote | dot | str | num | bool | sym => exact .inr rfl

/-- Skipping goes on, or ends with the error that began it. -/
theorem push_skipping_cases (place : Span) (unclosed : Nat) (t : Token) :
    (∃ unclosed', push (.skipping place unclosed) t = .more (.skipping place unclosed')) ∨
    push (.skipping place unclosed) t = .failed (.nestedTooDeep place) := by
  obtain ⟨lexeme, span⟩ := t
  cases lexeme with
  | closeParen =>
    rw [push]
    split
    · exact .inr rfl
    · exact .inl ⟨_, rfl⟩
  | openParen | quote | dot | str | num | bool | sym => exact .inl ⟨_, rfl⟩

/-- **A datum that is being skipped has overstepped the limit** at the token that is going to be reported. -/
theorem oversteps_of_skipping {ts : List Token} {place : Span} {unclosed : Nat}
    (h : (Step.more .start).after ts = some (.more (.skipping place unclosed))) :
    ∃ t, Oversteps [] ts t ∧ t.span = place := by
  -- From the end: the last token was skipped like those before it, or it is the one that found no room.
  induction ts using List.reverseRecOn generalizing unclosed with
  | nil => cases h
  | append_singleton ts t ih =>
    rw [Step.after_append] at h
    obtain ⟨s, hts, ht⟩ := Option.bind_eq_some_iff.1 h
    cases s with
    | done d | failed e => cases ht
    | more p =>
      have hpush : p.push t = .more (.skipping place unclosed) := Option.some.inj ht
      cases p with
      | reading stack =>
        have hexplained := after_explained (.reading .nil) hts
        obtain ⟨d, stack', hd⟩ | ⟨stack', hmore⟩ | ⟨-, hunexpected⟩ | ⟨hfull, hopens, unclosed', hgave⟩ :=
          push_reading_cases stack t
        · exact absurd (hd.symm.trans hpush) (deliver_ne_skipping _ _ _ _)
        · cases hmore.symm.trans hpush
        · cases hunexpected.symm.trans hpush
        · cases hexplained with
          | reading opened =>
            refine ⟨t, ⟨ts, [], stack, rfl, hts, Nat.le_antisymm opened.length_le hfull, hopens⟩, ?_⟩
            have hplace := hgave.symm.trans hpush
            cases unclosed' with
            | zero => cases hplace
            | succ => cases hplace; rfl
      | closing opener items tail stack =>
        obtain ⟨d, stack', hd⟩ | hfailed := push_closing_cases opener items tail stack t
        · exact absurd (hd.symm.trans hpush) (deliver_ne_skipping _ _ _ _)
        · cases hfailed.symm.trans hpush
      | skipping place' unclosed' =>
        obtain ⟨unclosed'', hmore⟩ | hfailed := push_skipping_cases place' unclosed' t
        · cases hmore.symm.trans hpush
          obtain ⟨t', hover, hspan⟩ := ih hts
          exact ⟨t', hover.append [t], hspan⟩
        · cases hfailed.symm.trans hpush

end Parser

/-- The list or quote that finds no room is the first wrong token. -/
theorem Oversteps.firstWrong {ts : List Token} {t : Token} (h : Oversteps [] ts t) :
    ∃ q r, ts = q ++ t :: r ∧ FirstWrong q t ∧ (t.lexeme = .openParen ∨ t.lexeme = .quote) := by
  obtain ⟨q, r, stack, rfl, hq, hlimit, ht⟩ := h
  have hviable : Viable q := (after_explained (.reading .nil) hq).viable nofun
  refine ⟨q, r, rfl, .of_dead hq hviable ?_, ht⟩
  obtain ht | ht := ht
  · rw [push_openParen_full ht hlimit]
    exact dead_gaveUp _ _
  · rw [push_quote_full ht hlimit]
    exact dead_gaveUp _ _

/-! ## Which error is reported -/

/-- The error that a row of tokens gives, some of them being left unread: it names the first wrong token, or, where all
tokens are viable, the last one if it is a quote, and else the innermost parenthesis still open. -/
inductive Reported : List Token → List Token → SyntaxError → Prop
  | unexpectedToken {q r : List Token} {t : Token} (wrong : FirstWrong q t)
      (stray : t.lexeme = .closeParen ∨ t.lexeme = .dot) :
      Reported (q ++ t :: r) r (.unexpectedToken t.lexeme.kind t.span)
  | expectedCloseParen {q r : List Token} {o t : Token} (wrong : FirstWrong q t) (inside : InnermostOpen q o) :
      Reported (q ++ t :: r) r (.expectedCloseParen o.span t.lexeme.kind t.span)
  | nestedTooDeep {q skipped r : List Token} {t : Token} (wrong : FirstWrong q t)
      (opens : t.lexeme = .openParen ∨ t.lexeme = .quote) : Reported (q ++ t :: skipped ++ r) r (.nestedTooDeep t.span)
  | danglingQuote {q : List Token} {t : Token} (viable : Viable (q ++ [t])) (last : t.lexeme = .quote) :
      Reported (q ++ [t]) [] (.danglingQuote t.span)
  | unterminatedList {ts : List Token} {o : Token} (viable : Viable ts) (last : ∀ t ∈ ts.getLast?, t.lexeme ≠ .quote)
      (inside : InnermostOpen ts o) : Reported ts [] (.unterminatedList o.span)

/-- A run fails at a token, or at the end of the row. -/
theorem run_failed {offset : Nat} : ∀ {ts : List Token} {p : Parser} {r : List Token} {e : SyntaxError},
    run offset p ts = (.error e, r) →
    (∃ q t p', ts = q ++ t :: r ∧ (Step.more p).after q = some (.more p') ∧ p'.push t = .failed e) ∨
    (r = [] ∧ ∃ p', (Step.more p).after ts = some (.more p') ∧ e = p'.atEnd offset)
  | [], p, r, e, h => by
    cases h
    exact .inr ⟨rfl, p, rfl, rfl⟩
  | t :: ts, p, r, e, h => by
    rw [run] at h
    cases hpush : p.push t with
    | done d =>
      rw [hpush] at h
      cases h
    | failed e' =>
      rw [hpush] at h
      cases h
      exact .inl ⟨[], t, p, rfl, rfl, hpush⟩
    | more p' =>
      rw [hpush] at h
      obtain ⟨q, t', p'', rfl, hafter, hfailed⟩ | ⟨rfl, p'', hafter, rfl⟩ := run_failed h
      · exact .inl ⟨t :: q, t', p'', rfl, by rw [Step.after, hpush, hafter], hfailed⟩
      · exact .inr ⟨rfl, p'', by rw [Step.after, hpush, hafter], rfl⟩

/-- **A token that is refused is the first wrong one**, or the end of what was skipped. -/
theorem reported_of_failed {q : List Token} {t : Token} {p : Parser} {e : SyntaxError}
    (hafter : (Step.more .start).after q = some (.more p)) (hpush : p.push t = .failed e) (r : List Token) :
    Reported (q ++ t :: r) r e := by
  have hexplained := after_explained (.reading .nil) hafter
  have hdead : Dead (p.push t) := hpush ▸ dead_failed e
  cases p with
  | reading stack =>
    have hwrong := FirstWrong.of_dead hafter (hexplained.viable nofun) hdead
    obtain ⟨d, stack', hd⟩ | ⟨stack', hmore⟩ | ⟨hstray, hunexpected⟩ | ⟨-, hopens, unclosed, hgave⟩ :=
      push_reading_cases stack t
    · exact absurd (hd.symm.trans hpush) (deliver_ne_failed _ _ _)
    · cases hmore.symm.trans hpush
    · cases hunexpected.symm.trans hpush
      exact .unexpectedToken hwrong hstray
    · have he := hgave.symm.trans hpush
      cases unclosed with
      | zero =>
        cases he
        simpa using @Reported.nestedTooDeep _ [] r _ hwrong hopens
      | succ => cases he
  | closing opener items tail stack =>
    have hwrong := FirstWrong.of_dead hafter (hexplained.viable nofun) hdead
    obtain ⟨d, stack', hd⟩ | hexpected := push_closing_cases opener items tail stack t
    · exact absurd (hd.symm.trans hpush) (deliver_ne_failed _ _ _)
    · cases hexpected.symm.trans hpush
      cases hexplained with
      | @closing o dot q' ps p _ _ _ _ _ outer ho hdot inside hne hn tail hm =>
        have hbehind : Balanced ([dot] ++ p) :=
          (Balanced.single (by rw [hdot]; nofun) (by rw [hdot]; nofun)).append tail.balanced
        exact .expectedCloseParen hwrong ⟨q', _, rfl, ho, inside.balanced.append hbehind⟩
  | skipping place unclosed =>
    obtain ⟨unclosed', hmore⟩ | hfailed := push_skipping_cases place unclosed t
    · cases hmore.symm.trans hpush
    · cases hfailed.symm.trans hpush
      obtain ⟨t', hover, rfl⟩ := oversteps_of_skipping hafter
      obtain ⟨q', skipped, rfl, hwrong, hopens⟩ := hover.firstWrong
      have hreported := @Reported.nestedTooDeep _ (skipped ++ [t]) r _ hwrong hopens
      simpa using hreported

theorem DenotesAll.last_ne_quote {ps : List Token} {ds : List Datum} {n : Nat} (h : DenotesAll ps ds n) :
    ∀ t ∈ ps.getLast?, t.lexeme ≠ .quote := by
  induction ds generalizing ps n with
  | nil =>
    cases h
    nofun
  | cons d ds ih =>
    cases h with
    | cons first later =>
      intro t ht
      rw [List.getLast?_append] at ht
      obtain hlater | ⟨-, hfirst⟩ := Option.or_eq_some_iff.1 ht
      · exact ih later t hlater
      · exact first.last_ne_quote t hfirst

theorem last_ne_quote_of {q ts : List Token} {o : Token} (ho : o.lexeme ≠ .quote)
    (hts : ∀ t ∈ ts.getLast?, t.lexeme ≠ .quote) :
    ∀ t ∈ (q ++ o :: ts).getLast?, t.lexeme ≠ .quote := by
  intro t ht
  rw [List.getLast?_append_cons] at ht
  cases ts with
  | nil =>
    cases ht
    exact ho
  | cons t' ts =>
    rw [List.getLast?_cons_cons] at ht
    exact hts t ht

/-- **Where the tokens end too early**, what is open is to blame. -/
theorem reported_of_atEnd {ts : List Token} {p : Parser} (hne : ts ≠ [])
    (hafter : (Step.more .start).after ts = some (.more p)) (offset : Nat) : Reported ts [] (p.atEnd offset) := by
  have hexplained := after_explained (.reading .nil) hafter
  cases hexplained with
  | reading opened =>
    have hviable := opened.viable
    cases opened with
    | nil => exact absurd rfl hne
    | @list o q ps items stack n outer ho inside hn =>
      have ho' : o.lexeme ≠ .quote := by rw [ho]; nofun
      exact .unterminatedList hviable (last_ne_quote_of ho' inside.last_ne_quote) ⟨q, ps, rfl, ho, inside.balanced⟩
    | @tail o dot q ps items stack n outer ho hdot inside hne hn =>
      have hdot' : Balanced [dot] := .single (by rw [hdot]; nofun) (by rw [hdot]; nofun)
      have hlast : ∀ t ∈ (q ++ o :: ps ++ dot :: []).getLast?, t.lexeme ≠ .quote :=
        last_ne_quote_of (by rw [hdot]; nofun) nofun
      refine .unterminatedList hviable (by simpa using hlast) ⟨q, ps ++ [dot], rfl, ho, inside.balanced.append hdot'⟩
    | quote outer ht hn => exact .danglingQuote hviable ht
  | @closing o dot q ps p items d stack n m outer ho hdot inside hitems hn tail hm =>
    have hviable := Parser.Explained.viable (.closing outer ho hdot inside hitems hn tail hm) nofun
    have hbehind : Balanced ([dot] ++ p) :=
      (Balanced.single (by rw [hdot]; nofun) (by rw [hdot]; nofun)).append tail.balanced
    have hlast : ∀ t ∈ (q ++ o :: ps ++ dot :: p).getLast?, t.lexeme ≠ .quote :=
      last_ne_quote_of (by rw [hdot]; nofun) tail.last_ne_quote
    exact .unterminatedList hviable (by simpa using hlast) ⟨q, _, rfl, ho, inside.balanced.append hbehind⟩
  | skipping =>
    obtain ⟨t, hover, rfl⟩ := oversteps_of_skipping hafter
    obtain ⟨q, skipped, rfl, hwrong, hopens⟩ := hover.firstWrong
    have hreported := @Reported.nestedTooDeep _ skipped [] _ hwrong hopens
    rwa [List.append_nil] at hreported

/-- **Whatever error a run gives**, it names the first wrong token or blames what is open at the end. -/
theorem run_reported {offset : Nat} {ts r : List Token} {e : SyntaxError} (hne : ts ≠ [])
    (h : run offset .start ts = (.error e, r)) : Reported ts r e := by
  obtain ⟨q, t, p, rfl, hafter, hfailed⟩ | ⟨rfl, p, hafter, rfl⟩ := run_failed h
  · exact reported_of_failed hafter hfailed r
  · exact reported_of_atEnd hne hafter offset

/-! ## From the tokens to the reader -/

namespace Cursor

variable {c c' : Cursor}

theorem rest_of_isExhausted (h : c.isExhausted = true) : c.rest = [] ∧ c.atEnd = true := by
  simpa [isExhausted, hasBuffered, and_comm] using h

theorem nextToken_of_isExhausted (h : c.isExhausted = true) : c.nextToken = (c, .ok none) := by
  obtain ⟨hr, hend⟩ := rest_of_isExhausted h
  have hskip : c.skipBuffered = c := by rw [skipBuffered, hr, atmosphere, atmosphereFrom, advance_zero]
  have hline : c.skipBuffered.nextLine = (c, .ok false) := by rw [hskip, nextLine, if_pos hend]
  rw [nextToken, skipAtmosphere_of_nextLine (by rw [hskip]; exact hr) hline, if_neg Bool.false_ne_true]
  dsimp only
  rw [hr]

theorem isExhausted_of_skipAtmosphere (h : c.skipAtmosphere = (c', .ok ())) (hr : c'.rest = []) :
    c'.isExhausted = true := by
  fun_induction skipAtmosphere c with
  | case1 c skipped hbuffered =>
    obtain ⟨rfl, -⟩ := Prod.mk.inj h
    simp [hasBuffered, hr] at hbuffered
  | case2 c skipped _ c₁ _ _ ih => exact ih h
  | case3 c skipped hbuffered c₁ hline =>
    cases h
    exact isExhausted_of_nextLine hline (by simpa [hasBuffered] using hbuffered)
  | case4 => cases h

theorem isExhausted_of_nextToken (h : c.nextToken = (c', .ok none)) : c'.isExhausted = true := by
  unfold nextToken at h
  split at h
  · cases h
  · next c₁ hskip =>
    split at h
    · next hr =>
      cases h
      exact isExhausted_of_skipAtmosphere hskip hr
    · split at h <;> cases h

theorem holds_of_isExhausted (h : c.isExhausted = true) : c.Holds [] := holds_nil.2 ⟨c, nextToken_of_isExhausted h⟩

/-- **A datum fails as the run over its tokens does.** -/
theorem feedParser_failed_run : ∀ {ts : List Token} {c : Cursor} {p : Parser} {failure : ReadFailure}, c.Holds ts →
    c.feedParser p = (c', .error failure) →
    ∃ e r, failure = c'.reject e ∧ c'.Holds r ∧ run c'.offset p ts = (.error e, r)
  | [], c, p, failure, hts, h => by
    obtain ⟨stop, hstop⟩ := holds_nil.1 hts
    rw [feedParser_of_end hstop] at h
    cases h
    exact ⟨_, [], rfl, holds_of_isExhausted (isExhausted_of_nextToken hstop), rfl⟩
  | t :: ts, c, p, failure, hts, h => by
    obtain ⟨c₁, hc₁, hlater⟩ := holds_cons.1 hts
    rw [feedParser_of_token hc₁] at h
    rw [run]
    cases hpush : p.push t with
    | more p' =>
      rw [hpush] at h
      exact feedParser_failed_run hlater h
    | done d =>
      rw [hpush] at h
      cases h
    | failed e =>
      rw [hpush] at h
      cases h
      exact ⟨e, ts, rfl, hlater, rfl⟩

/-- How a datum fails: at a token that is refused, at the end of the source, or because no further token can be had. -/
theorem feedParser_failed {p : Parser} {failure : ReadFailure} (h : c.feedParser p = (c', .error failure)) :
    (∃ q t p' e, c.Scans (q ++ [t]) c' ∧ (Step.more p).after q = some (.more p') ∧ p'.push t = .failed e ∧
      failure = c'.reject e) ∨
    (∃ ts last p', c.Scans ts last ∧ (Step.more p).after ts = some (.more p') ∧ last.nextToken = (c', .ok none) ∧
      failure = c'.reject (p'.atEnd c'.offset)) ∨
    (∃ ts last p', c.Scans ts last ∧ (Step.more p).after ts = some (.more p') ∧
      last.nextToken = (c', .error failure)) := by
  fun_induction feedParser p c with
  | case1 p c c₁ failure' hnext =>
    cases h
    exact .inr (.inr ⟨[], c, p, .nil, rfl, hnext⟩)
  | case2 p c c₁ hnext =>
    cases h
    exact .inr (.inl ⟨[], c, p, .nil, rfl, hnext, rfl⟩)
  | case3 => cases h
  | case4 p c c₁ t hnext e hpush =>
    cases h
    exact .inl ⟨[], t, p, e, .cons hnext .nil, rfl, hpush, rfl⟩
  | case5 p c c₁ t hnext p₁ hpush _ ih =>
    have further {ts : List Token} {s : Parser.Step} (hts : (Step.more p₁).after ts = some s) :
        (Step.more p).after (t :: ts) = some s := by rw [Step.after, hpush, hts]
    obtain ⟨q, t', p', e, hscans, hafter, hrest⟩ | ⟨ts, last, p', hscans, hafter, hrest⟩ |
        ⟨ts, last, p', hscans, hafter, hrest⟩ := ih h
    · exact .inl ⟨t :: q, t', p', e, .cons hnext hscans, further hafter, hrest⟩
    · exact .inr (.inl ⟨t :: ts, last, p', .cons hnext hscans, further hafter, hrest⟩)
    · exact .inr (.inr ⟨t :: ts, last, p', .cons hnext hscans, further hafter, hrest⟩)

theorem begins_of_seekDatum {fetched : Bool} (h : c.seekDatum fetched = (c', .ok true)) : BeginsToken c'.rest := by
  fun_induction seekDatum fetched c with
  | case1 fetched c skipped hbuffered =>
    obtain ⟨rfl, -⟩ := Prod.mk.inj h
    exact c.rest_skipBuffered.resolve_left (by simpa [hasBuffered] using hbuffered)
  | case3 fetched c skipped _ _ c₁ _ _ ih => exact ih h
  | case2 => injection h with _ h; cases h
  | case4 | case5 => cases h

theorem skipBuffered_of_begins (h : BeginsToken c.rest) : c.skipBuffered = c := by
  have hnone := h.atmosphere []
  rw [List.append_nil] at hnone
  rw [skipBuffered, hnone, advance_zero]

/-- A datum that is found has a first token, or fails in it. -/
theorem nextToken_ne_none (h : BeginsToken c.rest) : c.nextToken.2 ≠ .ok none := by
  have hskip := skipBuffered_of_begins h
  obtain ⟨first, after, hr, -⟩ := h
  rw [← hskip] at hr
  rw [nextToken_of_starts hr]
  cases (c.skipBuffered.takeToken first after).2 <;> nofun

/-- **A syntax error of a read** is one of the lexer, or one that a row of tokens gives, and the row is not empty. -/
theorem read_failed {e : SyntaxError} {excerpt : Excerpt} (h : c.read = (c', .error (.text e excerpt))) :
    ∃ c₁ ts last stop, c.seekDatum false = (c₁, .ok true) ∧ c₁.openDatum.Scans ts last ∧ c' = stop.closeDatum ∧
      (last.nextToken = (stop, .error (.text e excerpt)) ∨
        ts ≠ [] ∧ Reported ts [] e ∧ excerpt = stop.excerpt ∧
          (stop = last ∨ last.nextToken = (stop, .ok none) ∧ ∃ p : Parser, e = p.atEnd stop.offset)) := by
  obtain ⟨c₁, why, -, hread⟩ | ⟨c₁, -, hread⟩ | ⟨c₁, hseek, hread⟩ := read_cases c
  · cases h.symm.trans hread
  · cases h.symm.trans hread
  · rcases hparse : c₁.openDatum.feedParser .start with ⟨stop, failure | d⟩
    · rw [hparse] at hread
      cases h.symm.trans hread
      have hbegins : BeginsToken c₁.rest := begins_of_seekDatum hseek
      refine ⟨c₁, ?_⟩
      obtain ⟨q, t, p, e', hscans, hafter, hpush, he⟩ | ⟨ts, last, p, hscans, hafter, hend, he⟩ |
          ⟨ts, last, p, hscans, -, hnext⟩ := feedParser_failed hparse
      · cases he
        have hne : q ++ [t] ≠ [] := List.append_ne_nil_of_right_ne_nil q (List.cons_ne_nil t [])
        exact ⟨q ++ [t], stop, stop, hseek, hscans, rfl, .inr ⟨hne, reported_of_failed hafter hpush [], rfl, .inl rfl⟩⟩
      · cases he
        have hne : ts ≠ [] := by
          rintro rfl
          cases hscans
          exact nextToken_ne_none (c := c₁.openDatum) hbegins (congrArg Prod.snd hend)
        exact ⟨ts, last, stop, hseek, hscans, rfl, .inr ⟨hne, reported_of_atEnd hne hafter _, rfl, .inr ⟨hend, p, rfl⟩⟩⟩
      · exact ⟨ts, last, stop, hseek, hscans, rfl, .inl hnext⟩
    · rw [hparse] at hread
      cases h.symm.trans hread

end Cursor

/-- **Syntax errors are reported at the first token that cannot be right.**  Where a row of tokens fails, the tokens
before the one that is named begin a datum within the limit, and with it they do not; or all tokens begin one, and the
last one is to blame if it is a quote, and else the innermost parenthesis still open.  So it is for every source that
holds these tokens.  Reading never fails for want of any token: what it takes for the beginning of a datum has a first
token or fails in it, and its syntax errors are those of the lexer and those of rows that are not empty. -/
theorem first_wrong_token_is_named :
    (∀ (offset : Nat) (ts r : List Token) (e : SyntaxError), ts ≠ [] → run offset .start ts = (.error e, r) →
      Reported ts r e) ∧
    (∀ (c c' : Cursor) (ts : List Token) (failure : ReadFailure), c.Holds ts → ts ≠ [] →
      c.feedParser .start = (c', .error failure) → ∃ e r, failure = c'.reject e ∧ c'.Holds r ∧ Reported ts r e) ∧
    (∀ (c c' stop : Cursor), c.seekDatum false = (c', .ok true) → c'.openDatum.nextToken ≠ (stop, .ok none)) ∧
    (∀ (c c' : Cursor) (e : SyntaxError) (excerpt : Excerpt), c.read = (c', .error (.text e excerpt)) →
      ∃ c₁ ts last, c.seekDatum false = (c₁, .ok true) ∧ c₁.openDatum.Scans ts last ∧
        ((∃ stop, last.nextToken = (stop, .error (.text e excerpt))) ∨ ts ≠ [] ∧ Reported ts [] e)) := by
  refine ⟨fun _ _ _ _ => run_reported, fun c c' ts failure hts hne h => ?_, fun c c' stop h hnone => ?_,
    fun c c' e excerpt h => ?_⟩
  · obtain ⟨e, r, hfailure, hr, hrun⟩ := Cursor.feedParser_failed_run hts h
    exact ⟨e, r, hfailure, hr, run_reported hne hrun⟩
  · have hbegins : BeginsToken c'.rest := Cursor.begins_of_seekDatum h
    exact Cursor.nextToken_ne_none (c := c'.openDatum) hbegins (congrArg Prod.snd hnone)
  · obtain ⟨c₁, ts, last, stop, hseek, hscans, -, hlexical | ⟨hne, hreported, -⟩⟩ := Cursor.read_failed h
    · exact ⟨c₁, ts, last, hseek, hscans, .inl ⟨stop, hlexical⟩⟩
    · exact ⟨c₁, ts, last, hseek, hscans, .inr ⟨hne, hreported⟩⟩

/-- The tokens of `(a ('b . c d`. -/
def wrongTail : List Token :=
  [⟨.openParen, 0, 1⟩, ⟨.sym "a", 1, 1⟩, ⟨.openParen, 3, 1⟩, ⟨.quote, 4, 1⟩, ⟨.sym "b", 5, 1⟩, ⟨.dot, 7, 1⟩,
    ⟨.sym "c", 9, 1⟩, ⟨.sym "d", 11, 1⟩]

/-- In `(a ('b . c d` the last symbol is the first that cannot be right, and the inner list is the one that should have
been closed. -/
theorem symbol_behind_tail_is_named :
    Reported wrongTail [] (.expectedCloseParen ⟨3, 1⟩ .symbol ⟨11, 1⟩) ∧
    (∃ c' failure e r, (Cursor.start (.code "(a ('b . c d")).openDatum.feedParser .start = (c', .error failure) ∧
      failure = c'.reject e ∧ c'.Holds r ∧ Reported wrongTail r e) ∧
    (∃ c', (Cursor.start (.code "(a ('b . c d")).seekDatum false = (c', .ok true) ∧
      ∀ stop, c'.openDatum.nextToken ≠ (stop, .ok none)) ∧
    (∃ c₁ ts last, (Cursor.start (.code "(a ('b . c d")).seekDatum false = (c₁, .ok true) ∧ c₁.openDatum.Scans ts last ∧
      ((∃ stop, last.nextToken =
          (stop, .error (.text (.expectedCloseParen ⟨3, 1⟩ .symbol ⟨11, 1⟩) ⟨"<code>:1", "(a ('b . c d"⟩))) ∨
        ts ≠ [] ∧ Reported ts [] (.expectedCloseParen ⟨3, 1⟩ .symbol ⟨11, 1⟩))) := by
  have row : (Cursor.start (.code "(a ('b . c d")).openDatum.Holds wrongTail := by
    iterate 8 refine Cursor.holds_of_token (by with_unfolding_all rfl) ?_
    exact Cursor.holds_of_end (by with_unfolding_all rfl)
  have fails : ∃ c' failure, (Cursor.start (.code "(a ('b . c d")).openDatum.feedParser .start = (c', .error failure) :=
    ⟨_, _, by with_unfolding_all rfl⟩
  have found : ∃ c', (Cursor.start (.code "(a ('b . c d")).seekDatum false = (c', .ok true) :=
    ⟨_, by with_unfolding_all rfl⟩
  have hne : wrongTail ≠ [] := List.cons_ne_nil _ _
  obtain ⟨c₁, failure, fails⟩ := fails
  obtain ⟨c₂, found⟩ := found
  obtain ⟨run, feed, seek, read⟩ := first_wrong_token_is_named
  obtain ⟨e, r, hfailure, hr, hreported⟩ := feed _ _ _ _ row hne fails
  exact ⟨run 0 _ _ _ hne rfl, ⟨c₁, failure, e, r, fails, hfailure, hr, hreported⟩,
    ⟨c₂, found, fun stop => seek _ _ stop found⟩, read _ _ _ _ (by with_unfolding_all rfl)⟩

end LispSession
