import LispSession.Proofs.Prompting
/-!
# How deep a parser is, and where skipping ends

A parser keeps a stack of the lists and quotes that are open.  Two numbers are read off it: its height, which is held
against the limit (`Parser.depth?`), and how many lists are on it, from which skipping counts down (`Parser.unclosed`).
A reader that calls itself for every list and quote would count instead: a depth, up by one as such a call begins and
down as it returns, and the open lists, up at an opening parenthesis and down at the closing one.  Whenever a token is
asked for these counts are the numbers read off the stack: a form is on the stack from the token that begins it to the
token that ends it, which is as long as its call goes on.  A form that fails ends the datum, and nobody asks for its
counts any more.

Both numbers can be told from the tokens alone: open are as many lists as the tokens open more than they close
(`Parser.after_unclosed`), and the height is how many of the lists and quotes that begin in them are not finished
(`underWay`).

While a datum that is nested too deep is being skipped, more lists were opened than closed; so skipping ends where they
first are as many behind the token that found no room, or else where the tokens end.
-/
namespace LispSession

open LispSession.Parser

/-- How many lists and quotes a parser is within.  One that skips does not count them. -/
def Parser.depth? : Parser → Option Nat
  | .reading stack => some stack.length
  | .closing _ _ _ stack => some (stack.length + 1)
  | .skipping _ _ => none

/-- Of these tokens none make a datum, however many are taken from the front. -/
def Unfinished (ts : List Token) : Prop := ∀ p d n, p <+: ts → ¬Denotes p d n

/-- A token that begins a list or a quote. -/
def Token.Opens (t : Token) : Prop := t.lexeme = .openParen ∨ t.lexeme = .quote

/-- A list or a quote begins in a place, and the tokens from there on do not finish it. -/
def UnderWay (ts : List Token) (place : Nat) : Prop := (∃ t, ts[place]? = some t ∧ t.Opens) ∧ Unfinished (ts.drop place)

/-- How many lists and quotes begin in some tokens and are not finished, neither by them nor by the tokens behind
them. -/
noncomputable def underWay (ts behind : List Token) : Nat :=
  {place | place < ts.length ∧ UnderWay (ts ++ behind) place}.ncard

/-- So many tokens go beyond a place and close as many lists as they open. -/
def Evens (ts : List Token) (place count : Nat) : Prop :=
  place < count ∧ count ≤ ts.length ∧ closers (ts.take count) = openers (ts.take count)

/-- The token in a place begins a list or quote that finds no room: as many as the limit allows are under way in front
of it, where the parser has got to. -/
structure GivesUpAt (ts : List Token) (place : Nat) (span : Span) : Prop where
  token : ∃ t, ts[place]? = some t ∧ t.Opens ∧ t.span = span
  reached : ∃ stack, (Step.more .start).after (ts.take place) = some (.more (.reading stack))
  full : underWay (ts.take place) [] = 256

/-! ## Counting what is under way -/

section Counting

variable {t : Token} {ts us behind : List Token}

theorem underWay_set_finite (ts behind : List Token) :
    {place | place < ts.length ∧ UnderWay (ts ++ behind) place}.Finite :=
  (Set.finite_lt_nat ts.length).subset fun _ h => h.1

theorem UnderWay.append_left_iff {place : Nat} : UnderWay (ts ++ us) (ts.length + place) ↔ UnderWay us place := by
  rw [UnderWay, UnderWay, List.getElem?_append_right (Nat.le_add_right ..), List.drop_append, Nat.add_sub_cancel_left,
    List.drop_eq_nil_of_le (Nat.le_add_right ..), List.nil_append]

/-- What is under way begins in the first tokens or in those behind them. -/
theorem underWay_append (ts us behind : List Token) :
    underWay (ts ++ us) behind = underWay ts (us ++ behind) + underWay us behind := by
  have split : {place | place < (ts ++ us).length ∧ UnderWay (ts ++ us ++ behind) place} =
      {place | place < ts.length ∧ UnderWay (ts ++ (us ++ behind)) place} ∪
        (ts.length + ·) '' {place | place < us.length ∧ UnderWay (us ++ behind) place} := by
    ext place
    rw [List.append_assoc, List.length_append]
    constructor
    · rintro ⟨hlt, h⟩
      obtain hfront | hback := Nat.lt_or_ge place ts.length
      · exact .inl ⟨hfront, h⟩
      · obtain ⟨later, rfl⟩ := Nat.exists_eq_add_of_le hback
        exact .inr ⟨later, ⟨Nat.lt_of_add_lt_add_left hlt, UnderWay.append_left_iff.1 h⟩, rfl⟩
    · rintro (⟨hlt, h⟩ | ⟨later, ⟨hlt, h⟩, rfl⟩)
      · exact ⟨Nat.lt_add_right _ hlt, h⟩
      · exact ⟨Nat.add_lt_add_left hlt _, UnderWay.append_left_iff.2 h⟩
  have apart : Disjoint {place | place < ts.length ∧ UnderWay (ts ++ (us ++ behind)) place}
      ((ts.length + ·) '' {place | place < us.length ∧ UnderWay (us ++ behind) place}) := by
    rw [Set.disjoint_left]
    rintro _ ⟨hlt, -⟩ ⟨later, -, rfl⟩
    exact absurd hlt (Nat.not_lt.2 (Nat.le_add_right ..))
  rw [underWay, split, Set.ncard_union_eq apart (underWay_set_finite ..) ((underWay_set_finite ..).image _),
    Set.ncard_image_of_injective _ (add_right_injective _)]
  rfl

theorem underWay_nil (behind : List Token) : underWay [] behind = 0 := by simp [underWay]

theorem underWay_singleton_of_not (h : ¬UnderWay (t :: behind) 0) : underWay [t] behind = 0 := by
  rw [underWay, Set.ncard_eq_zero (underWay_set_finite ..), Set.eq_empty_iff_forall_notMem]
  rintro place ⟨hlt, hplace⟩
  obtain rfl : place = 0 := Nat.lt_one_iff.1 hlt
  exact h hplace

/-- A token that begins nothing is nothing under way. -/
theorem underWay_singleton_of_not_opens (h : ¬t.Opens) (behind : List Token) : underWay [t] behind = 0 := by
  refine underWay_singleton_of_not ?_
  rintro ⟨⟨t', ht', hopens⟩, -⟩
  cases ht'
  exact h hopens

theorem underWay_singleton (h : t.Opens) (hrest : Unfinished (t :: behind)) : underWay [t] behind = 1 := by
  have only : {place | place < [t].length ∧ UnderWay ([t] ++ behind) place} = {0} := by
    ext place
    constructor
    · exact fun hplace => Nat.lt_one_iff.1 hplace.1
    · rintro rfl
      exact ⟨Nat.zero_lt_one, ⟨t, rfl, h⟩, hrest⟩
  rw [underWay, only, Set.ncard_singleton]

theorem underWay_closer (h : t.lexeme = .closeParen) (behind : List Token) : underWay [t] behind = 0 :=
  underWay_singleton_of_not_opens (by simp [Token.Opens, h]) behind

theorem underWay_dot (h : t.lexeme = .dot) (behind : List Token) : underWay [t] behind = 0 :=
  underWay_singleton_of_not_opens (by simp [Token.Opens, h]) behind

/-- A token whose datum is there is not under way. -/
theorem Denotes.underWay_first {p : List Token} {d : Datum} {n : Nat} (h : Denotes (t :: p) d n) (behind : List Token) :
    underWay [t] (p ++ behind) = 0 :=
  underWay_singleton_of_not fun hplace => hplace.2 _ d n ⟨behind, rfl⟩ h

mutual

/-- **Nothing in a datum is under way.** -/
theorem Denotes.underWay {p : List Token} {d : Datum} {n : Nat} :
    Denotes p d n → ∀ behind : List Token, underWay p behind = 0
  | .atom h, behind => underWay_singleton_of_not_opens (by rintro (ht | ht) <;> rw [ht] at h <;> cases h) behind
  | @Denotes.list o c ps _ _ ho hc items, behind => by
    have first : underWay [o] (ps ++ [c] ++ behind) = 0 := (Denotes.list ho hc items).underWay_first behind
    rw [List.cons_append, ← List.singleton_append, underWay_append, underWay_append, first, items.underWay,
      underWay_closer hc]
  | @Denotes.dotted o dot c ps p _ _ _ _ ho hdot hc items hne tail, behind => by
    have first : underWay [o] (ps ++ dot :: p ++ [c] ++ behind) = 0 :=
      (Denotes.dotted ho hdot hc items hne tail).underWay_first behind
    rw [List.cons_append, List.cons_append, ← List.singleton_append, underWay_append, first, List.append_assoc,
      List.cons_append, underWay_append, ← List.singleton_append, underWay_append, underWay_append, items.underWay,
      underWay_dot hdot, tail.underWay, underWay_closer hc]
  | .quoted (q := q) (p := p) hq inner, behind => by
    rw [← List.singleton_append, underWay_append, (Denotes.quoted hq inner).underWay_first, inner.underWay]

theorem DenotesAll.underWay {ps : List Token} {ds : List Datum} {n : Nat} :
    DenotesAll ps ds n → ∀ behind : List Token, underWay ps behind = 0
  | .nil, behind => underWay_nil behind
  | .cons first later, behind => by rw [underWay_append, first.underWay, later.underWay]

end

end Counting

/-! ## Open forms are under way -/

section Open

variable {t : Token} {ts us : List Token}

theorem unfinished_nil : Unfinished [] := fun _ _ _ hp h => h.ne_nil (List.prefix_nil.1 hp)

/-- A list is not finished as long as nothing closes it. -/
theorem unfinished_list (ht : t.lexeme = .openParen) (h : ClosesOwn ts) : Unfinished (t :: ts) := by
  intro p d n hp hdenotes
  cases p with
  | nil => exact hdenotes.ne_nil rfl
  | cons t' p =>
    obtain ⟨rfl, hp'⟩ := List.cons_prefix_cons.1 hp
    obtain ⟨hopens, hcloses⟩ := openers_openParen ht
    have hfront := h p hp'
    have heven := hdenotes.balanced.even
    rw [closers_cons, openers_cons] at heven
    omega

theorem Denotes.behind_quote {p : List Token} {d : Datum} {n : Nat} (h : Denotes (t :: p) d n)
    (ht : t.lexeme = .quote) :
    ∃ d' n', Denotes p d' n' := by
  generalize hts : t :: p = ts at h
  cases h with
  | atom h =>
    cases hts
    rw [ht] at h
    cases h
  | list ho =>
    cases hts
    cases ht.symm.trans ho
  | dotted ho =>
    cases hts
    cases ht.symm.trans ho
  | quoted _ inner =>
    cases hts
    exact ⟨_, _, inner⟩

/-- A quote is not finished before what it quotes. -/
theorem unfinished_quote (ht : t.lexeme = .quote) (h : Unfinished ts) : Unfinished (t :: ts) := by
  intro p d n hp hdenotes
  cases p with
  | nil => exact hdenotes.ne_nil rfl
  | cons t' p =>
    obtain ⟨rfl, hp'⟩ := List.cons_prefix_cons.1 hp
    obtain ⟨d', n', hinner⟩ := hdenotes.behind_quote ht
    exact h p d' n' hp' hinner

/-- **What is open is under way, and nothing else**, as long as the tokens behind it finish nothing and close no list
that is open around them. -/
theorem Opened.underWay {stack : List OpenForm} {q : List Token} (h : Opened stack q) :
    ∀ {behind : List Token}, Unfinished behind → ClosesOwn behind → underWay q behind = stack.length := by
  induction h with
  | nil => exact fun _ _ => underWay_nil _
  | @list o q ps items stack n outer ho inside hn ih =>
    intro behind _ hcloses
    have hitems : ClosesOwn (ps ++ behind) := .behind inside.balanced hcloses
    have hlist := unfinished_list ho hitems
    have hclosesOwn := hitems.cons (t := o) (by simp [ho])
    rw [← List.singleton_append, underWay_append, underWay_append, inside.underWay, List.append_assoc,
      List.singleton_append, ih hlist hclosesOwn, underWay_singleton (.inl ho) hlist]
    rfl
  | @tail o dot q ps items stack n outer ho hdot inside hne hn ih =>
    intro behind _ hcloses
    have hitems : ClosesOwn (ps ++ ([dot] ++ behind)) := .behind inside.balanced (hcloses.cons (by simp [hdot]))
    have hlist := unfinished_list ho hitems
    have hclosesOwn := hitems.cons (t := o) (by simp [ho])
    rw [List.cons_append, ← List.singleton_append, underWay_append, underWay_append, underWay_append, inside.underWay,
      underWay_dot hdot]
    simp only [List.append_assoc, List.cons_append, List.nil_append] at hlist hclosesOwn ⊢
    rw [ih hlist hclosesOwn, underWay_singleton (.inl ho) hlist]
    rfl
  | quote outer ht hn ih =>
    intro behind hbehind hcloses
    have hquote := unfinished_quote ht hbehind
    rw [underWay_append, List.singleton_append, ih hquote (hcloses.cons (by simp [ht])),
      underWay_singleton (.inr ht) hquote]
    rfl

/-- **A parser that does not skip is as deep as lists and quotes are under way**, within the limit. -/
theorem Parser.Explained.depth {p : Parser} {depth : Nat} (h : p.Explained ts) (hdepth : p.depth? = some depth) :
    depth = underWay ts [] ∧ depth ≤ 256 := by
  cases h with
  | reading opened =>
    cases hdepth
    exact ⟨(opened.underWay unfinished_nil .nil).symm, opened.length_le⟩
  | @closing o dot q ps p items d stack n m outer ho hdot inside hne hn tail hm =>
    cases hdepth
    have hbehind : ClosesOwn (ps ++ dot :: p) :=
      .behind inside.balanced (ClosesOwn.cons (by simp [hdot]) tail.balanced.front)
    have hlist := unfinished_list ho hbehind
    have hstack := outer.underWay hlist (hbehind.cons (by simp [ho]))
    refine ⟨?_, Nat.le_trans (Nat.le_add_right _ n) hn⟩
    rw [List.cons_append, underWay_append, List.append_nil, hstack, ← List.singleton_append, underWay_append,
      List.append_nil, underWay_singleton (.inl ho) hlist, underWay_append, inside.underWay, ← List.singleton_append,
      underWay_append, underWay_dot hdot, tail.underWay]
  | skipping => cases hdepth

end Open

/-! ## Skipping -/

section Skipped

variable {ts us : List Token} {p : Parser} {stack : List OpenForm} {t : Token} {span : Span}

/-- Skipping goes on until it fails. -/
theorem Parser.skips_on {unclosed : Nat} (h : (Step.more (.skipping span unclosed)).after us = some (.more p)) :
    ∃ unclosed', p = .skipping span unclosed' := by
  induction us generalizing unclosed with
  | nil =>
    cases h
    exact ⟨unclosed, rfl⟩
  | cons t us ih =>
    rw [Step.after] at h
    obtain ⟨unclosed', hmore⟩ | hfailed := push_skipping_cases span unclosed t
    · rw [hmore] at h
      exact ih h
    · rw [hfailed] at h
      cases us <;> cases h

/-- A token that finds no room is the beginning of skipping, if it is not the end of it. -/
theorem Parser.push_full (hfull : stack.length = nestingLimit) (ht : t.Opens) :
    ∃ unclosed, push (.reading stack) t = gaveUp t.span unclosed := by
  obtain ht | ht := ht
  · exact ⟨_, push_openParen_full ht hfull⟩
  · exact ⟨_, push_quote_full ht hfull⟩

theorem Parser.counts_unclosed (h : (Step.more .start).after ts = some (.more p)) :
    p.SkipsInList ∧ p.unclosed + closers ts = openers ts := by
  obtain ⟨hskips, hcount⟩ := after_unclosed (show SkipsInList .start from trivial) h
  exact ⟨hskips, hcount.trans (Nat.zero_add _)⟩

theorem Parser.depth_of_after {depth : Nat} (h : (Step.more .start).after ts = some (.more p))
    (hdepth : p.depth? = some depth) :
    depth = underWay ts [] ∧ depth ≤ 256 := by
  have hexplained : p.Explained ts := after_explained (.reading .nil) h
  exact hexplained.depth hdepth

/-- **While tokens are skipped, more lists were opened than closed.** -/
theorem unclosed_of_skipped (hq : (Step.more .start).after ts = some (.more (.reading stack)))
    (hfull : stack.length = nestingLimit) (ht : t.Opens)
    (h : (Step.more .start).after (ts ++ t :: us) = some (.more p)) :
    closers (ts ++ t :: us) < openers (ts ++ t :: us) := by
  obtain ⟨hskips, hcount⟩ := counts_unclosed h
  rw [Step.after_append_of _ hq, Step.after] at h
  obtain ⟨first, hgave⟩ := push_full hfull ht
  rw [hgave] at h
  cases first with
  | zero => cases us <;> cases h
  | succ first =>
    obtain ⟨left, rfl⟩ := skips_on h
    have hpos : 0 < left := hskips
    rw [← hcount]
    exact Nat.lt_add_of_pos_left hpos

theorem GivesUpAt.of_reached (hq : (Step.more .start).after ts = some (.more (.reading stack)))
    (hfull : stack.length = nestingLimit) (ht : t.Opens) (us : List Token) :
    GivesUpAt (ts ++ t :: us) ts.length t.span where
  token := ⟨t, by rw [List.getElem?_append_right (Nat.le_refl _), Nat.sub_self]; rfl, ht, rfl⟩
  reached := ⟨stack, by rw [List.take_left, hq]⟩
  full := by rw [List.take_left, ← (depth_of_after hq rfl).1, hfull]; rfl

theorem GivesUpAt.append {place : Nat} (h : GivesUpAt ts place span) (us : List Token) :
    GivesUpAt (ts ++ us) place span := by
  obtain ⟨⟨t, ht, hopens, hspan⟩, reached, full⟩ := h
  have hlt : place < ts.length := (List.getElem?_eq_some_iff.1 ht).1
  have hfront : (ts ++ us).take place = ts.take place := List.take_append_of_le_length (Nat.le_of_lt hlt)
  exact ⟨⟨t, by rw [List.getElem?_append_left hlt, ht], hopens, hspan⟩, hfront ▸ reached, hfront ▸ full⟩

/-- **There is no balance as long as tokens are skipped.** -/
theorem not_evens_of_skipping {unclosed : Nat}
    (h : (Step.more .start).after ts = some (.more (.skipping span unclosed))) :
    ∃ place, GivesUpAt ts place span ∧ ∀ count, ¬Evens ts place count := by
  obtain ⟨t, ⟨q, r, stack, rfl, hq, hfull, ht⟩, rfl⟩ := oversteps_of_skipping h
  refine ⟨q.length, .of_reached hq hfull ht r, fun count ⟨hbeyond, hle, heven⟩ => ?_⟩
  obtain ⟨further, rfl⟩ := Nat.exists_eq_add_of_lt hbeyond
  have hfront : (q ++ t :: r).take (q.length + further + 1) = q ++ t :: r.take further := by
    rw [Nat.add_assoc, List.take_length_add_append, List.take_succ_cons]
  have hreached : ∃ p, (Step.more .start).after (q ++ t :: r.take further) = some (.more p) := by
    have hcut : q ++ t :: r.take further ++ r.drop further = q ++ t :: r := by simp
    by_cases hrest : r.drop further = []
    · rw [hrest, List.append_nil] at hcut
      exact ⟨_, hcut ▸ h⟩
    · exact after_front (hcut ▸ h) hrest
  obtain ⟨p, hp⟩ := hreached
  rw [hfront] at heven
  exact absurd heven (Nat.ne_of_lt (unclosed_of_skipped hq hfull ht hp))

/-- The token that makes the balance is the first behind which there is one. -/
theorem isLeast_evens {place : Nat} (hnone : ∀ count, ¬Evens ts place count) (hplace : place ≤ ts.length)
    (heven : closers (ts ++ [t]) = openers (ts ++ [t])) (us : List Token) :
    IsLeast {count | Evens (ts ++ t :: us) place count} (ts.length + 1) := by
  refine ⟨⟨Nat.lt_succ_of_le hplace, by simp, ?_⟩, fun count ⟨hbeyond, hle, hcount⟩ => ?_⟩
  · rwa [List.take_length_add_append, List.take_succ_cons, List.take_zero]
  · refine Nat.lt_of_not_le fun hshort => hnone count ⟨hbeyond, hshort, ?_⟩
    rwa [List.take_append_of_le_length hshort] at hcount

/-- Skipping fails at the token that closes the last list. -/
theorem Parser.closes_last {unclosed : Nat} {e : SyntaxError} (h : push (.skipping span unclosed) t = .failed e) :
    t.lexeme = .closeParen ∧ unclosed ≤ 1 ∧ e = .nestedTooDeep span := by
  obtain ⟨lexeme, place⟩ := t
  cases lexeme with
  | closeParen =>
    rw [push] at h
    split at h
    · next hlast =>
      cases h
      exact ⟨rfl, hlast, rfl⟩
    · cases h
  | openParen | quote | dot | str | num | bool | sym => cases h

/-- **The token at which a datum that is nested too deep fails makes the first balance** behind the token that found no
room, which it may be itself. -/
theorem isLeast_of_failed (h : (Step.more .start).after ts = some (.more p))
    (hpush : p.push t = .failed (.nestedTooDeep span)) (us : List Token) :
    ∃ place, GivesUpAt (ts ++ t :: us) place span ∧
      IsLeast {count | Evens (ts ++ t :: us) place count} (ts.length + 1) := by
  obtain ⟨hskips, hcount⟩ := counts_unclosed h
  cases p with
  | reading stack =>
    obtain ⟨d, stack', hd⟩ | ⟨stack', hmore⟩ | ⟨-, hunexpected⟩ | ⟨hroom, ht, -⟩ := push_reading_cases stack t
    · exact absurd (hd.symm.trans hpush) (deliver_ne_failed _ _ _)
    · cases hmore.symm.trans hpush
    · cases hunexpected.symm.trans hpush
    · have hfull : stack.length = nestingLimit := Nat.le_antisymm (depth_of_after h rfl).2 hroom
      have here : ∀ count, ¬Evens ts ts.length count := fun count heven => absurd heven.1 (Nat.not_lt.2 heven.2.1)
      obtain hopen | hquote := ht
      · cases (push_openParen_full hopen hfull).symm.trans hpush
      · obtain ⟨hopens, hcloses⟩ := @no_parenthesis t (by simp [hquote]) (by simp [hquote])
        have hgave := (push_quote_full hquote hfull).symm.trans hpush
        rw [unclosed] at hcount
        -- Only quotes are open, so there is nothing to skip.
        cases hlists : listsIn stack with
        | succ lists =>
          rw [hlists] at hgave
          cases hgave
        | zero =>
          rw [hlists] at hgave hcount
          cases hgave
          refine ⟨ts.length, .of_reached h hfull (.inr hquote) us, isLeast_evens here (Nat.le_refl _) ?_ us⟩
          rw [closers_append, openers_append]
          omega
  | closing opener items tail stack =>
    obtain ⟨d, stack', hd⟩ | hfailed := push_closing_cases opener items tail stack t
    · exact absurd (hd.symm.trans hpush) (deliver_ne_failed _ _ _)
    · cases hfailed.symm.trans hpush
  | skipping place n =>
    obtain ⟨hclose, hlast, he⟩ := closes_last hpush
    cases he
    obtain ⟨place, hgives, hnone⟩ := not_evens_of_skipping h
    obtain ⟨t', ht', -⟩ := hgives.token
    have hplace : place < ts.length := (List.getElem?_eq_some_iff.1 ht').1
    obtain ⟨hopens, hcloses⟩ := closers_closeParen hclose
    have hpos : 0 < n := hskips
    rw [unclosed] at hcount
    refine ⟨place, hgives.append _, isLeast_evens hnone (Nat.le_of_lt hplace) ?_ us⟩
    rw [closers_append, openers_append]
    omega

/-- **Where the tokens end while some are skipped, there is no balance.** -/
theorem never_of_atEnd {offset : Nat} (h : (Step.more .start).after ts = some (.more p))
    (he : .nestedTooDeep span = p.atEnd offset) :
    ∃ place, GivesUpAt ts place span ∧ ∀ count, ¬Evens ts place count := by
  cases p with
  | reading stack =>
    cases stack with
    | nil => cases he
    | cons form stack => cases form <;> cases he
  | closing => cases he
  | skipping =>
    cases he
    exact not_evens_of_skipping h

end Skipped

namespace Cursor

variable {c c' : Cursor}

theorem isLexical_of_finishString {start : Nat} {known : String} {escaped : Bool} {e : SyntaxError} {excerpt : Excerpt}
    (h : c.finishString start known escaped = (c', .error (.text e excerpt))) : e.isLexical = true := by
  fun_induction finishString start known escaped c with
  | case1 => cases h
  | case3 _ _ _ _ _ _ _ _ _ ih => exact ih h
  | case2 | case4 =>
    injection h with _ h
    cases h
    rfl
  | case5 =>
    injection h with _ h
    cases h

/-- What the lexer refuses has nothing to do with nesting. -/
theorem isLexical_of_nextToken {e : SyntaxError} {excerpt : Excerpt}
    (h : c.nextToken = (c', .error (.text e excerpt))) :
    e.isLexical = true := by
  unfold nextToken at h
  split at h
  · cases h
  · split at h
    · cases h
    · split at h
      · cases h
      · next htaken =>
        cases h
        unfold takeToken at htaken
        split at htaken
        · cases htaken
        · cases htaken
        · cases htaken
        · rw [takeString] at htaken
          split at htaken
          · cases htaken
          · next hstring =>
            cases htaken
            exact isLexical_of_finishString hstring
        · rw [takeWord] at htaken
          split at htaken
          · cases htaken
          · cases htaken
            rfl

end Cursor

/-- **What is skipped ends at the first balance.**  Whenever a parser wishes for a token, it counts the lists that the
tokens so far have opened and not closed, and there are some if it skips; otherwise it is as deep as lists and quotes
are under way, and they are within the limit.  If it fails because a token finds no room, it has taken the tokens up to
the first balance behind that one, or all if there is none.  So it is for every row of tokens, and for every source. -/
theorem skipping_ends_at_first_balance :
    (∀ (ts : List Token) (p : Parser), (Step.more .start).after ts = some (.more p) →
      (∀ c stop : Cursor, c.Scans ts stop → c.feedParser .start = stop.feedParser p) ∧
      p.unclosed + closers ts = openers ts ∧ p.SkipsInList ∧
      ∀ depth, p.depth? = some depth → depth = underWay ts [] ∧ depth ≤ 256) ∧
    (∀ (offset : Nat) (ts r : List Token) (span : Span), run offset .start ts = (.error (.nestedTooDeep span), r) →
      ∃ place, GivesUpAt ts place span ∧
        ((∃ count, IsLeast {count | Evens ts place count} count ∧ r = ts.drop count) ∨
          (∀ count, ¬Evens ts place count) ∧ r = [])) ∧
    (∀ (c c' : Cursor) (span : Span) (excerpt : Excerpt),
      c.feedParser .start = (c', .error (.text (.nestedTooDeep span) excerpt)) →
      ∃ ts stop place, c.Scans ts stop ∧ GivesUpAt ts place span ∧
        (c' = stop ∧ IsLeast {count | Evens ts place count} ts.length ∨
          stop.nextToken = (c', .ok none) ∧ ∀ count, ¬Evens ts place count)) := by
  refine ⟨fun ts p h => ⟨fun c stop hscans => hscans.settle h, (counts_unclosed h).2, (counts_unclosed h).1,
    fun depth => depth_of_after h⟩, fun offset ts r span h => ?_, fun c c' span excerpt h => ?_⟩
  · obtain ⟨q, t, p, rfl, hafter, hpush⟩ | ⟨rfl, p, hafter, he⟩ := run_failed h
    · obtain ⟨place, hgives, hleast⟩ := isLeast_of_failed hafter hpush r
      exact ⟨place, hgives, .inl ⟨_, hleast, by simp⟩⟩
    · obtain ⟨place, hgives, hnone⟩ := never_of_atEnd hafter he
      exact ⟨place, hgives, .inr ⟨hnone, rfl⟩⟩
  · obtain ⟨q, t, p, e, hscans, hafter, hpush, he⟩ | ⟨ts, last, p, hscans, hafter, hend, he⟩ |
        ⟨ts, last, p, -, -, hnext⟩ := Cursor.feedParser_failed h
    · cases he
      obtain ⟨place, hgives, hleast⟩ := isLeast_of_failed hafter hpush []
      exact ⟨q ++ [t], c', place, hscans, hgives, .inl ⟨rfl, by rwa [List.length_append]⟩⟩
    · rw [Cursor.reject] at he
      injection he with he
      obtain ⟨place, hgives, hnone⟩ := never_of_atEnd hafter he
      exact ⟨ts, last, place, hscans, hgives, .inr ⟨hend, hnone⟩⟩
    · cases Cursor.isLexical_of_nextToken hnext

/-- The tokens of a list of a symbol behind 256 quotes. -/
def quotesInList : List Token :=
  ⟨.openParen, 0, 1⟩ :: (quoteRow 1 256 ++ [⟨.sym "x", 1 + 256, 1⟩]) ++ [⟨.closeParen, 1 + 256 + 1, 1⟩]

/-- Behind `('` a list and a quote are under way.  A list of a symbol behind 256 quotes is skipped to its end, and the
symbol behind it is left; and from a source that is such a list, all tokens are taken. -/
theorem list_of_quotes_is_skipped :
    2 = underWay [⟨.openParen, 0, 1⟩, ⟨.quote, 1, 1⟩] [] ∧
    (∃ span place count, GivesUpAt (quotesInList ++ [⟨.sym "y", 260, 1⟩]) place span ∧
      IsLeast {count | Evens (quotesInList ++ [⟨.sym "y", 260, 1⟩]) place count} count ∧
      List.drop count (quotesInList ++ [⟨.sym "y", 260, 1⟩]) = [⟨.sym "y", 260, 1⟩]) ∧
    ∃ (c c' : Cursor) (span : Span) (excerpt : Excerpt),
      c.feedParser .start = (c', .error (.text (.nestedTooDeep span) excerpt)) ∧
      ∃ ts stop place, c.Scans ts stop ∧ GivesUpAt ts place span ∧
        (c' = stop ∧ IsLeast {count | Evens ts place count} ts.length ∨
          stop.nextToken = (c', .ok none) ∧ ∀ count, ¬Evens ts place count) := by
  obtain ⟨asks, row, source⟩ := skipping_ends_at_first_balance
  have list : DatumText _ quotesInList _ 257 := quotedSymbol_list 256
  obtain ⟨t, -, hafter⟩ := list.denotes.givesUp [] (Nat.zero_le _) (by decide) (.inr (Nat.zero_le _))
  have hfailed : (Step.more .start).after quotesInList = some (.failed (.nestedTooDeep t.span)) := hafter
  refine ⟨((asks _ _ rfl).2.2.2 2 rfl).1, ?_, ?_⟩
  · obtain ⟨place, hgives, ⟨count, hleast, hr⟩ | ⟨-, hr⟩⟩ :=
      row 0 _ _ _ (Step.resume_of_after 0 [⟨.sym "y", 260, 1⟩] hfailed)
    · exact ⟨_, place, count, hgives, hleast, hr.symm⟩
    · cases hr
  · have hbegins := list.begins
    have hpieces := list.pieces
    rw [← String.toList_ofList (l := '(' :: _)] at hbegins hpieces
    obtain ⟨c, -, hc, -⟩ := Cursor.seekDatum_start hbegins
    obtain ⟨stop, hscans, -⟩ := hc.openDatum.scans hpieces
    exact ⟨_, stop, _, _, hscans.settle hfailed, source _ _ _ _ (hscans.settle hfailed)⟩

end LispSession
