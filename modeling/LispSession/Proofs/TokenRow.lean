import LispSession.Proofs.Grammar
/-!
# The tokens of a source

What a parser makes of a source depends on the row of its tokens only.  `Cursor.Scans` is one token after another,
without an error in between; `Cursor.Holds` is all tokens up to the end of the source.
-/
namespace LispSession

open LispSession.Parser

namespace Cursor

/-- The next tokens of the source, and where the cursor stands behind them. -/
inductive Scans : Cursor → List Token → Cursor → Prop
  | nil {c : Cursor} : Scans c [] c
  | cons {c c' stop : Cursor} {t : Token} {ts : List Token} (first : c.nextToken = (c', .ok (some t)))
      (later : Scans c' ts stop) : Scans c (t :: ts) stop

/-- All tokens of the source, up to its end. -/
def Holds (c : Cursor) (ts : List Token) : Prop := ∃ last stop, c.Scans ts last ∧ last.nextToken = (stop, .ok none)

theorem holds_nil {c : Cursor} : c.Holds [] ↔ ∃ stop, c.nextToken = (stop, .ok none) := by
  constructor
  · rintro ⟨last, stop, hs, h⟩
    cases hs
    exact ⟨stop, h⟩
  · rintro ⟨stop, h⟩
    exact ⟨c, stop, .nil, h⟩

theorem holds_cons {c : Cursor} {t : Token} {ts : List Token} :
    c.Holds (t :: ts) ↔ ∃ c', c.nextToken = (c', .ok (some t)) ∧ c'.Holds ts := by
  constructor
  · rintro ⟨last, stop, hs, h⟩
    cases hs with
    | cons first later => exact ⟨_, first, last, stop, later, h⟩
  · rintro ⟨c', first, last, stop, later, h⟩
    exact ⟨last, stop, .cons first later, h⟩

theorem holds_of_token {c : Cursor} {t : Token} {ts : List Token} (first : c.nextToken.2 = .ok (some t))
    (later : c.nextToken.1.Holds ts) : c.Holds (t :: ts) :=
  holds_cons.2 ⟨_, Prod.ext rfl first, later⟩

theorem holds_of_end {c : Cursor} (h : c.nextToken.2 = .ok none) : c.Holds [] :=
  holds_nil.2 ⟨_, Prod.ext rfl h⟩

theorem Holds.unique : ∀ {ts us : List Token} {c : Cursor}, c.Holds ts → c.Holds us → ts = us
  | [], [], _, _, _ => rfl
  | [], u :: us, c, h, h' => by
    obtain ⟨stop, h⟩ := holds_nil.1 h
    obtain ⟨c', h', -⟩ := holds_cons.1 h'
    cases h.symm.trans h'
  | t :: ts, [], c, h, h' => by
    obtain ⟨c', h, -⟩ := holds_cons.1 h
    obtain ⟨stop, h'⟩ := holds_nil.1 h'
    cases h.symm.trans h'
  | t :: ts, u :: us, c, h, h' => by
    obtain ⟨c₁, h, hs⟩ := holds_cons.1 h
    obtain ⟨c₂, h', hs'⟩ := holds_cons.1 h'
    cases h.symm.trans h'
    rw [hs.unique hs']

/-- Go on reading after an answer of the parser. -/
def settle (c : Cursor) : Parser.Step → Cursor × Except ReadFailure Datum
  | .more p => c.feedParser p
  | .done d => (c, .ok d)
  | .failed error => (c, .error (c.reject error))

theorem feedParser_of_token {c c' : Cursor} {t : Token} (h : c.nextToken = (c', .ok (some t))) (p : Parser) :
    c.feedParser p = c'.settle (p.push t) := by
  rw [feedParser]
  split
  · next hf => cases h.symm.trans hf
  · next hn => cases h.symm.trans hn
  · next ht =>
    cases h.symm.trans ht
    cases p.push t <;> rfl

theorem feedParser_of_end {c c' : Cursor} (h : c.nextToken = (c', .ok none)) (p : Parser) :
    c.feedParser p = (c', .error (c'.reject (p.atEnd c'.offset))) := by
  rw [feedParser]
  split
  · next hf => cases h.symm.trans hf
  · next hn => cases h.symm.trans hn; rfl
  · next ht => cases h.symm.trans ht

theorem Scans.settle {ts : List Token} {c stop : Cursor} (h : c.Scans ts stop) {s s' : Parser.Step}
    (hs : s.after ts = some s') : c.settle s = stop.settle s' := by
  induction h generalizing s with
  | nil => cases hs; rfl
  | cons first later ih =>
    cases s with
    | more p =>
      rw [Cursor.settle, feedParser_of_token first]
      exact ih hs
    | done d | failed e => cases hs

/-- **Reading a datum comes to what the parser makes of the tokens of the source.** -/
theorem feedParser_iff_run (offset : Nat) : ∀ {ts : List Token} {c : Cursor} {p : Parser} {r : List Token} {d : Datum},
    c.Holds ts → ((∃ c', c.feedParser p = (c', .ok d) ∧ c'.Holds r) ↔ run offset p ts = (.ok d, r))
  | [], c, p, r, d, h => by
    obtain ⟨stop, h⟩ := holds_nil.1 h
    rw [feedParser_of_end h, run]
    constructor
    · rintro ⟨c', he, -⟩
      cases he
    · intro he
      cases he
  | t :: ts, c, p, r, d, h => by
    obtain ⟨c₁, h, hs⟩ := holds_cons.1 h
    rw [feedParser_of_token h, run]
    cases p.push t with
    | more p' => exact feedParser_iff_run offset hs
    | done d' =>
      constructor
      · rintro ⟨c', he, hr⟩
        cases he
        rw [hs.unique hr]
      · intro he
        cases he
        exact ⟨c₁, rfl, hs⟩
    | failed e =>
      constructor
      · rintro ⟨c', he, -⟩
        cases he
      · intro he
        cases he

end Cursor

/-- **The parser reads exactly the data of the grammar that are nested at most 256 deep.**  Of a row of tokens it takes
the part in front that denotes a datum, and there is only one such part, with one meaning; so it does for every source
whose tokens are that row. -/
theorem parser_reads_exactly_the_grammar (ts r : List Token) (d : Datum) :
    (∀ offset, run offset .start ts = (.ok d, r) ↔ ∃ p, ts = p ++ r ∧ ∃ n ≤ 256, Denotes p d n) ∧
    (∀ c : Cursor, c.Holds ts →
      ((∃ c', c.feedParser .start = (c', .ok d) ∧ c'.Holds r) ↔ ∃ p, ts = p ++ r ∧ ∃ n ≤ 256, Denotes p d n)) ∧
    (∀ p p' r' d', ts = p ++ r → ts = p' ++ r' → (∃ n ≤ 256, Denotes p d n) → (∃ n ≤ 256, Denotes p' d' n) →
      p = p' ∧ d = d') := by
  refine ⟨fun offset => run_start_iff offset ts r d, fun c hc => ?_, ?_⟩
  · rw [Cursor.feedParser_iff_run 0 hc]
    exact run_start_iff 0 ts r d
  · rintro p p' r' d' hts hts' ⟨n, hn, hp⟩ ⟨n', hn', hp'⟩
    exact hp.unique hp' hn hn' (hts ▸ hts')

/-- Of `('a . b) c` the parser reads the dotted list and leaves the symbol behind it. -/
theorem parser_reads_dotted_list :
    ∃ c', (Cursor.start (.code "('a . b) c")).openDatum.feedParser .start =
        (c', .ok (.pair (Datum.sym "a").quoted (.sym "b"))) ∧
      c'.Holds [⟨.sym "c", ⟨9, 1⟩⟩] := by
  have row : (Cursor.start (.code "('a . b) c")).openDatum.Holds
      [⟨.openParen, ⟨0, 1⟩⟩, ⟨.quote, ⟨1, 1⟩⟩, ⟨.sym "a", ⟨2, 1⟩⟩, ⟨.dot, ⟨4, 1⟩⟩, ⟨.sym "b", ⟨6, 1⟩⟩,
        ⟨.closeParen, ⟨7, 1⟩⟩, ⟨.sym "c", ⟨9, 1⟩⟩] := by
    iterate 7 refine Cursor.holds_of_token (by with_unfolding_all rfl) ?_
    exact Cursor.holds_of_end (by with_unfolding_all rfl)
  have items : DenotesAll [⟨.quote, ⟨1, 1⟩⟩, ⟨.sym "a", ⟨2, 1⟩⟩] [(Datum.sym "a").quoted] 1 :=
    .cons (.quoted rfl (.atom rfl)) .nil
  have derivation : Denotes [⟨.openParen, ⟨0, 1⟩⟩, ⟨.quote, ⟨1, 1⟩⟩, ⟨.sym "a", ⟨2, 1⟩⟩, ⟨.dot, ⟨4, 1⟩⟩,
      ⟨.sym "b", ⟨6, 1⟩⟩, ⟨.closeParen, ⟨7, 1⟩⟩] (.pair (Datum.sym "a").quoted (.sym "b")) 2 :=
    .dotted rfl rfl rfl items (List.cons_ne_nil _ _) (.atom rfl)
  exact ((parser_reads_exactly_the_grammar _ _ _).2.1 _ row).2 ⟨_, rfl, 2, by decide, derivation⟩

end LispSession
