import LispSession.Datum.Reader
/-!
# The grammar of data

A datum is an atom, a list of data, a list of at least one datum with a tail after a dot, or a quoted datum.
`Denotes p d n` says so of a row of tokens: `p` spells the datum `d`, with lists and quotes nested `n` deep.

The parser knows nothing of this grammar; it only keeps the forms still open.  Two statements tie them together.  A row
that denotes a datum is answered, whatever is open around it, by handing that datum over (`Denotes.after`), as long as
the nesting stays within the limit.  And the forms that are open are always explained by the tokens that were read
(`Parser.Explained`), so a datum that comes out has a derivation behind it.
-/
namespace LispSession

/-- The datum that a token is all by itself. -/
def Lexeme.atom? : Lexeme → Option Datum
  | .str text => some (.str text)
  | .num x => some (.num x)
  | .bool b => some (.bool b)
  | .sym name => some (if name = "nil" then .nil else .sym name)
  | .openParen | .closeParen | .quote | .dot => none

mutual

/-- The tokens spell one datum; the number is how deep its lists and quotes are nested. -/
inductive Denotes : List Token → Datum → Nat → Prop
  | atom {t : Token} {d : Datum} (h : t.lexeme.atom? = some d) : Denotes [t] d 0
  | list {o c : Token} {ps : List Token} {ds : List Datum} {n : Nat} (ho : o.lexeme = .openParen)
      (hc : c.lexeme = .closeParen) (items : DenotesAll ps ds n) :
      Denotes (o :: ps ++ [c]) (ds.foldr .pair .nil) (n + 1)
  | dotted {o dot c : Token} {ps p : List Token} {ds : List Datum} {d : Datum} {n m : Nat}
      (ho : o.lexeme = .openParen) (hdot : dot.lexeme = .dot) (hc : c.lexeme = .closeParen)
      (items : DenotesAll ps ds n) (some_item : ds ≠ []) (tail : Denotes p d m) :
      Denotes (o :: ps ++ dot :: p ++ [c]) (ds.foldr .pair d) (max n m + 1)
  | quoted {q : Token} {p : List Token} {d : Datum} {n : Nat} (hq : q.lexeme = .quote) (inner : Denotes p d n) :
      Denotes (q :: p) d.quoted (n + 1)

/-- The tokens spell the data one after the other; the number is the nesting of the deepest. -/
inductive DenotesAll : List Token → List Datum → Nat → Prop
  | nil : DenotesAll [] [] 0
  | cons {p ps : List Token} {d : Datum} {ds : List Datum} {n m : Nat} (first : Denotes p d n)
      (later : DenotesAll ps ds m) : DenotesAll (p ++ ps) (d :: ds) (max n m)

end

theorem DenotesAll.snoc {p ps : List Token} {d : Datum} {ds : List Datum} {n m : Nat} (hp : Denotes p d m) :
    DenotesAll ps ds n → DenotesAll (ps ++ p) (ds ++ [d]) (max n m)
  | .nil => by simpa using DenotesAll.cons hp .nil
  | .cons first later => by
    have h := DenotesAll.cons first (later.snoc hp)
    rwa [← List.append_assoc, ← Nat.max_assoc] at h

theorem Datum.onto_eq_foldr (tail : Datum) (items : List Datum) : onto tail items = items.reverse.foldr .pair tail := by
  rw [onto, List.foldr_reverse]

/-! ## Feeding a parser -/

namespace Parser

/-- The answer after exactly these further tokens; there is none where a parser is done before the last of them. -/
def Step.after : Step → List Token → Option Step
  | s, [] => some s
  | .more p, t :: ts => (p.push t).after ts
  | _, _ :: _ => none

theorem Step.after_append : ∀ (ts us : List Token) (s : Step), s.after (ts ++ us) = (s.after ts).bind (·.after us)
  | [], us, s => by simp [Step.after]
  | t :: ts, us, .more p => by
    rw [List.cons_append, Step.after, Step.after, Step.after_append ts us]
  | t :: ts, us, .done d => rfl
  | t :: ts, us, .failed e => rfl

theorem Step.after_append_of {s s' : Step} {ts : List Token} (us : List Token) (h : s.after ts = some s') :
    s.after (ts ++ us) = s'.after us := by
  rw [Step.after_append, h, Option.bind_some]

theorem push_atom {t : Token} {d : Datum} (h : t.lexeme.atom? = some d) (stack : List OpenForm) :
    push (.reading stack) t = deliver d stack := by
  obtain ⟨lexeme, span⟩ := t
  cases lexeme <;> simp only [Lexeme.atom?, Option.some.injEq, reduceCtorEq] at h <;> subst h <;> rfl

theorem push_openParen {t : Token} (h : t.lexeme = .openParen) (stack : List OpenForm)
    (hn : stack.length < nestingLimit) :
    push (.reading stack) t = .more (.reading (.list t.span [] :: stack)) := by
  obtain ⟨lexeme, span⟩ := t
  subst h
  rw [push, enter, if_pos hn]

theorem push_quote {t : Token} (h : t.lexeme = .quote) (stack : List OpenForm) (hn : stack.length < nestingLimit) :
    push (.reading stack) t = .more (.reading (.quote t.span :: stack)) := by
  obtain ⟨lexeme, span⟩ := t
  subst h
  rw [push, enter, if_pos hn]

theorem push_closeParen {t : Token} (h : t.lexeme = .closeParen) (opener : Span) (items : List Datum)
    (stack : List OpenForm) :
    push (.reading (.list opener items :: stack)) t = deliver (items.reverse.foldr .pair .nil) stack := by
  obtain ⟨lexeme, span⟩ := t
  subst h
  rw [push, Datum.onto_eq_foldr]

theorem push_dot {t : Token} (h : t.lexeme = .dot) (opener : Span) {items : List Datum} (hne : items ≠ [])
    (stack : List OpenForm) :
    push (.reading (.list opener items :: stack)) t = .more (.reading (.tail opener items :: stack)) := by
  obtain ⟨lexeme, span⟩ := t
  subst h
  cases items with
  | nil => exact absurd rfl hne
  | cons item items => rfl

theorem push_closing {t : Token} (h : t.lexeme = .closeParen) (opener : Span) (items : List Datum) (tail : Datum)
    (stack : List OpenForm) :
    push (.closing opener items tail stack) t = deliver (items.reverse.foldr .pair tail) stack := by
  obtain ⟨lexeme, span⟩ := t
  subst h
  rw [push, Datum.onto_eq_foldr]

end Parser

/-! ## What the grammar derives is read

The induction is on the derivation, under all forms that may be open around the datum: a list is read on top of what is
open outside of it, and its items on top of the list. -/

open LispSession.Parser

mutual

/-- **A row of tokens that denotes a datum is answered by handing the datum over** to the forms around it. -/
theorem Denotes.after {p : List Token} {d : Datum} {n : Nat} :
    Denotes p d n → ∀ stack : List OpenForm, stack.length + n ≤ nestingLimit →
      (Step.more (.reading stack)).after p = some (deliver d stack)
  | .atom h, stack, _ => by
    rw [Step.after, push_atom h]
    rfl
  | .list (n := n) (o := o) ho hc items, stack, hn => by
    have inside := items.after o.span [] stack (by omega)
    rw [List.cons_append, Step.after, push_openParen ho stack (by omega), Step.after_append_of _ inside, Step.after,
      push_closeParen hc]
    simp [Step.after]
  | @Denotes.dotted o _ _ _ _ ds _ n m ho hdot hc items hne tail, stack, hn => by
    have inside := items.after o.span [] stack (by omega)
    have behind := tail.after (.tail o.span (ds.reverse ++ []) :: stack) (by simp only [List.length_cons]; omega)
    rw [List.append_assoc, List.cons_append, Step.after, push_openParen ho stack (by omega),
      Step.after_append_of _ inside, List.cons_append, Step.after, push_dot hdot _ (by simpa using hne),
      Step.after_append_of _ behind, deliver, Step.after, push_closing hc]
    simp [Step.after]
  | .quoted (q := q) hq inner, stack, hn => by
    rw [Step.after, push_quote hq stack (by omega),
      inner.after (.quote q.span :: stack) (by simp only [List.length_cons]; omega), deliver]

theorem DenotesAll.after {ps : List Token} {ds : List Datum} {n : Nat} :
    DenotesAll ps ds n → ∀ (opener : Span) (items : List Datum) (stack : List OpenForm),
      stack.length + 1 + n ≤ nestingLimit →
      (Step.more (.reading (.list opener items :: stack))).after ps =
        some (.more (.reading (.list opener (ds.reverse ++ items) :: stack)))
  | .nil, _, _, _, _ => rfl
  | .cons (n := n) (m := m) (d := d) first later, opener, items, stack, hn => by
    have one := first.after (.list opener items :: stack) (by simp only [List.length_cons]; omega)
    have rest := later.after opener (d :: items) stack (by omega)
    rw [Step.after_append_of _ one, deliver, rest, List.reverse_cons, List.append_assoc]
    rfl

end

/-! ## What is read, the grammar derives

Each open form stands for a stretch of the tokens read so far.  The nesting that is still allowed inside a form is what
the forms around it leave over, which is why the bound of every item mentions the height of the stack. -/

/-- The tokens that account for the open forms, outermost form first. -/
inductive Opened : List OpenForm → List Token → Prop
  | nil : Opened [] []
  | list {o : Token} {q ps : List Token} {items : List Datum} {stack : List OpenForm} {n : Nat}
      (outer : Opened stack q) (ho : o.lexeme = .openParen) (inside : DenotesAll ps items.reverse n)
      (hn : stack.length + 1 + n ≤ nestingLimit) : Opened (.list o.span items :: stack) (q ++ o :: ps)
  | tail {o dot : Token} {q ps : List Token} {items : List Datum} {stack : List OpenForm} {n : Nat}
      (outer : Opened stack q) (ho : o.lexeme = .openParen) (hdot : dot.lexeme = .dot)
      (inside : DenotesAll ps items.reverse n) (hne : items ≠ []) (hn : stack.length + 1 + n ≤ nestingLimit) :
      Opened (.tail o.span items :: stack) (q ++ (o :: ps ++ [dot]))
  | quote {t : Token} {q : List Token} {stack : List OpenForm} (outer : Opened stack q) (ht : t.lexeme = .quote)
      (hn : stack.length + 1 ≤ nestingLimit) : Opened (.quote t.span :: stack) (q ++ [t])

/-- A parser is explained by the tokens it was fed.  A parser that only skips needs no explanation: no datum will come
of it. -/
inductive Parser.Explained : Parser → List Token → Prop
  | reading {stack : List OpenForm} {q : List Token} (open_forms : Opened stack q) : Explained (.reading stack) q
  | closing {o dot : Token} {q ps p : List Token} {items : List Datum} {d : Datum} {stack : List OpenForm} {n m : Nat}
      (outer : Opened stack q) (ho : o.lexeme = .openParen) (hdot : dot.lexeme = .dot)
      (inside : DenotesAll ps items.reverse n) (hne : items ≠ []) (hn : stack.length + 1 + n ≤ nestingLimit)
      (tail : Denotes p d m) (hm : stack.length + 1 + m ≤ nestingLimit) :
      Explained (.closing o.span items d stack) (q ++ (o :: ps ++ dot :: p))
  | skipping {place : Span} {unclosed : Nat} {q : List Token} : Explained (.skipping place unclosed) q

/-- An answer is explained: a datum by a derivation within the limit. -/
def Parser.Step.Explained (q : List Token) : Step → Prop
  | .more p => p.Explained q
  | .done d => ∃ n ≤ nestingLimit, Denotes q d n
  | .failed _ => True

theorem deliver_explained {p : List Token} {d : Datum} {n : Nat} (hd : Denotes p d n) {stack : List OpenForm}
    {q : List Token} (h : Opened stack q) (hn : stack.length + n ≤ nestingLimit) :
    (deliver d stack).Explained (q ++ p) := by
  induction h generalizing p d n with
  | nil => exact ⟨n, by simpa using hn, hd⟩
  | list outer ho inside hn' _ =>
    rw [deliver, List.append_assoc, List.cons_append]
    refine .reading (.list outer ho (List.reverse_cons ▸ inside.snoc hd) ?_)
    simp only [List.length_cons] at hn
    omega
  | tail outer ho hdot inside hne hn' _ =>
    rw [deliver, List.append_assoc, List.append_assoc]
    exact .closing outer ho hdot inside hne hn' hd (by simpa using hn)
  | quote outer ht hn' ih =>
    rw [deliver, List.append_assoc]
    exact ih (.quoted ht hd) (by simp only [List.length_cons] at hn; omega)

theorem Opened.length_le {stack : List OpenForm} {q : List Token} (h : Opened stack q) :
    stack.length ≤ nestingLimit := by
  cases h with
  | nil => exact Nat.zero_le _
  | list _ _ _ hn | tail _ _ _ _ _ hn | quote _ _ hn => simp only [List.length_cons]; omega

theorem enter_explained {form : OpenForm} {stack : List OpenForm} {q : List Token} (place : Span)
    (h : stack.length < nestingLimit → Opened (form :: stack) q) : (enter form place stack).Explained q := by
  unfold enter
  split
  · next hlt => exact .reading (h hlt)
  · split
    · trivial
    · exact .skipping

theorem closeParen_explained {stack : List OpenForm} {q : List Token} (h : Opened stack q) (span : Span) :
    (push (.reading stack) ⟨.closeParen, span⟩).Explained (q ++ [⟨.closeParen, span⟩]) := by
  cases h with
  | list outer ho inside hn =>
    rw [push_closeParen rfl, List.append_assoc]
    exact deliver_explained (.list ho rfl inside) outer (by omega)
  | nil | tail | quote => trivial

theorem dot_explained {stack : List OpenForm} {q : List Token} (h : Opened stack q) (span : Span) :
    (push (.reading stack) ⟨.dot, span⟩).Explained (q ++ [⟨.dot, span⟩]) := by
  cases h with
  | @list _ _ _ items _ _ outer ho inside hn =>
    cases items with
    | nil => trivial
    | cons item items =>
      rw [push_dot rfl _ (List.cons_ne_nil item items), List.append_assoc]
      exact .reading (.tail outer ho rfl inside (List.cons_ne_nil item items) hn)
  | nil | tail | quote => trivial

/-- **One token keeps a parser explained.** -/
theorem push_explained {p : Parser} {q : List Token} (h : p.Explained q) (t : Token) :
    (p.push t).Explained (q ++ [t]) := by
  obtain ⟨lexeme, span⟩ := t
  cases h with
  | @reading stack _ forms =>
    have atom {d : Datum} (hd : lexeme.atom? = some d) :
        (push (.reading stack) ⟨lexeme, span⟩).Explained (q ++ [⟨lexeme, span⟩]) := by
      rw [push_atom hd]
      exact deliver_explained (.atom hd) forms forms.length_le
    cases lexeme with
    | openParen => exact enter_explained span fun hlt => .list (o := ⟨.openParen, span⟩) forms rfl .nil hlt
    | quote => exact enter_explained span fun hlt => .quote (t := ⟨.quote, span⟩) forms rfl hlt
    | closeParen => exact closeParen_explained forms span
    | dot => exact dot_explained forms span
    | str | num | bool | sym => exact atom rfl
  | closing outer ho hdot inside hne hn tail hm =>
    cases lexeme with
    | closeParen =>
      rw [push_closing rfl, List.append_assoc]
      exact deliver_explained (.dotted ho hdot rfl inside (by simpa using hne) tail) outer (by omega)
    | _ => trivial
  | skipping =>
    cases lexeme with
    | openParen => exact .skipping
    | closeParen =>
      rw [push]
      split
      · trivial
      · exact .skipping
    | _ => exact .skipping

/-- **A datum that comes out of a run has a derivation behind it.** -/
theorem run_explained (offset : Nat) : ∀ (ts : List Token) {p : Parser} {q r : List Token} {d : Datum},
    p.Explained q → run offset p ts = (.ok d, r) → ∃ us, ts = us ++ r ∧ ∃ n ≤ nestingLimit, Denotes (q ++ us) d n
  | [], p, q, r, d, _, h => by cases h
  | t :: ts, p, q, r, d, hp, h => by
    have step := push_explained hp t
    rw [run] at h
    cases hs : p.push t with
    | more p' =>
      rw [hs] at h step
      obtain ⟨us, hts, hd⟩ := run_explained offset ts step h
      exact ⟨t :: us, by rw [hts, List.cons_append], by rwa [List.append_cons]⟩
    | done d' =>
      rw [hs] at h step
      cases h
      exact ⟨[t], rfl, step⟩
    | failed e =>
      rw [hs] at h
      cases h

/-! ## Rows of tokens -/

/-- Go on with a run after an answer. -/
def Parser.Step.resume (offset : Nat) : Step → List Token → Except SyntaxError Datum × List Token
  | .more p, ts => run offset p ts
  | .done d, ts => (.ok d, ts)
  | .failed e, ts => (.error e, ts)

theorem run_cons (offset : Nat) (p : Parser) (t : Token) (ts : List Token) :
    run offset p (t :: ts) = (p.push t).resume offset ts := by
  rw [run]
  cases p.push t <;> rfl

/-- A run over more tokens goes on with the answer to the first ones. -/
theorem Parser.Step.resume_of_after (offset : Nat) (r : List Token) :
    ∀ {ts : List Token} {s s' : Step}, s.after ts = some s' →
      s.resume offset (ts ++ r) = s'.resume offset r
  | [], s, s', h => by cases h; rfl
  | t :: ts, .more p, s', h => by
    rw [Step.after] at h
    rw [List.cons_append, resume, run_cons]
    exact resume_of_after offset r h
  | _ :: _, .done _, _, h => by cases h
  | _ :: _, .failed _, _, h => by cases h

/-- A run that has its datum before the end of the row leaves the rest of the row. -/
theorem run_of_after (offset : Nat) {p : Parser} {ts : List Token} {d : Datum} (r : List Token)
    (h : (Step.more p).after ts = some (.done d)) : run offset p (ts ++ r) = (.ok d, r) :=
  Step.resume_of_after offset r h

/-- **A parser accepts exactly what the grammar derives** within the limit, and leaves what stands behind it. -/
theorem run_start_iff (offset : Nat) (ts r : List Token) (d : Datum) :
    run offset .start ts = (.ok d, r) ↔ ∃ p, ts = p ++ r ∧ ∃ n ≤ nestingLimit, Denotes p d n := by
  constructor
  · intro h
    exact run_explained offset ts (.reading .nil) h
  · rintro ⟨p, rfl, n, hn, hp⟩
    exact run_of_after offset r (hp.after [] (by simpa using hn))

/-- No datum is the beginning of another, and no row of tokens denotes two data. -/
theorem Denotes.unique {p p' r r' : List Token} {d d' : Datum} {n n' : Nat} (h : Denotes p d n) (h' : Denotes p' d' n')
    (hn : n ≤ nestingLimit) (hn' : n' ≤ nestingLimit) (heq : p ++ r = p' ++ r') : p = p' ∧ d = d' := by
  have one := (run_start_iff 0 (p ++ r) r d).2 ⟨p, rfl, n, hn, h⟩
  have two := (run_start_iff 0 (p ++ r) r' d').2 ⟨p', heq, n', hn', h'⟩
  rw [one] at two
  cases two
  exact ⟨List.append_cancel_right heq, rfl⟩

end LispSession
