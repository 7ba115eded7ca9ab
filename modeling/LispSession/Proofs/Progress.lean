import LispSession.Datum.Reader
/-!
# Reading makes progress

Nothing is ever put back: what is left to read only shrinks.  A read that brings a datum or a syntax error has consumed
something (`read_consumes`), and one that brings nothing has done so too, unless it found the end of the source
(`read_nothing`).  So whoever reads a source again and again comes to its end.
-/
namespace LispSession

namespace Cursor

theorem skipAtmosphere_of_hasBuffered {c : Cursor} (h : c.skipBuffered.hasBuffered = true) :
    c.skipAtmosphere = (c.skipBuffered, .ok ()) := by
  rw [skipAtmosphere]
  simp only [h, if_true]

theorem pending_skipAtmosphere_le_skipped (c : Cursor) : c.skipAtmosphere.1.pending ≤ c.skipBuffered.pending := by
  rw [skipAtmosphere]
  dsimp only
  split
  · exact Nat.le_refl _
  · have fetch := pending_nextLine_le c.skipBuffered
    split
    · next c' h =>
      rw [h] at fetch
      exact Nat.le_trans (pending_skipAtmosphere_le c') fetch
    · next c' h => rwa [h] at fetch
    · next c' why h => rwa [h] at fetch

theorem pending_nextToken_le_skipped (c : Cursor) : c.nextToken.1.pending ≤ c.skipAtmosphere.1.pending := by
  unfold nextToken
  split
  · next h => exact Nat.le_of_eq (by rw [h])
  · next skipped h =>
    rw [h]
    split
    · exact Nat.le_refl _
    · next first after hr =>
      have token := takeToken_pending_lt hr
      split
      · next ht => rw [ht] at token; exact Nat.le_of_lt token
      · next ht => rw [ht] at token; exact Nat.le_of_lt token

theorem pending_nextToken_le (c : Cursor) : c.nextToken.1.pending ≤ c.pending :=
  Nat.le_trans (pending_nextToken_le_skipped c) (pending_skipAtmosphere_le c)

/-- On a line that is not used up, asking for a token consumes something, be it a comment or a token that is wrong. -/
theorem pending_nextToken_lt {c : Cursor} (h : c.rest ≠ []) : c.nextToken.1.pending < c.pending := by
  obtain ⟨first, after, hr⟩ := List.exists_cons_of_ne_nil h
  by_cases ha : atmosphere c.rest = 0
  · have same : c.skipBuffered.rest = first :: after := by rw [skipBuffered, ha, advance, hr]; rfl
    have stays := skipAtmosphere_of_hasBuffered (c := c) (by simp [hasBuffered, same])
    have token := takeToken_pending_lt same
    have skip := pending_skipBuffered_le c
    rw [nextToken, stays]
    simp only [same]
    split
    · next ht => rw [ht] at token; exact Nat.lt_of_lt_of_le token skip
    · next ht => rw [ht] at token; exact Nat.lt_of_lt_of_le token skip
  · have skip : c.skipBuffered.pending < c.pending := by
      obtain ⟨n, hn⟩ := Nat.exists_eq_succ_of_ne_zero ha
      rw [skipBuffered, hn]
      exact pending_advance_lt n hr
    have later := pending_skipAtmosphere_le_skipped c
    have token := pending_nextToken_le_skipped c
    omega

theorem pending_feedParser_le_token (p : Parser) (c : Cursor) :
    (c.feedParser p).1.pending ≤ c.nextToken.1.pending := by
  fun_induction feedParser p c with
  | case1 p c c' failure h => exact Nat.le_of_eq (by rw [h])
  | case2 p c c' h => exact Nat.le_of_eq (by rw [h])
  | case3 p c c' t h d _ => exact Nat.le_of_eq (by rw [h])
  | case4 p c c' t h error _ => exact Nat.le_of_eq (by rw [h])
  | case5 p c c' t h p' _ _ ih =>
    rw [h]
    exact Nat.le_trans ih (pending_nextToken_le c')

theorem isExhausted_of_nextLine {c c' : Cursor} (h : c.nextLine = (c', .ok false)) (hr : c.rest = []) :
    c'.isExhausted = true := by
  unfold nextLine at h
  split at h
  · next atEnd =>
    obtain ⟨rfl, -⟩ := Prod.mk.inj h
    simp [isExhausted, hasBuffered, atEnd, hr]
  · split at h
    · cases h
    · unfold takeDelivery at h
      split at h
      · cases h
      · cases h
      · split at h
        · cases h
        · obtain ⟨rfl, -⟩ := Prod.mk.inj h
          rfl

theorem seekDatum_found {f : Bool} {c c' : Cursor} (h : c.seekDatum f = (c', .ok true)) :
    c'.rest ≠ [] ∧ c'.pending ≤ c.pending := by
  fun_induction seekDatum f c with
  | case1 f c skipped buffered =>
    obtain ⟨rfl, -⟩ := Prod.mk.inj h
    exact ⟨by simpa [hasBuffered] using buffered, pending_skipBuffered_le c⟩
  | case3 f c skipped _ _ c₁ _ less ih =>
    obtain ⟨hr, hp⟩ := ih h
    exact ⟨hr, by omega⟩
  | case2 => injection h with _ h; cases h
  | case4 | case5 => cases h

/-- Looking for a datum, and finding none: at the end of the source, or on a line that was fetched for nothing. -/
theorem seekDatum_none {f : Bool} {c c' : Cursor} (h : c.seekDatum f = (c', .ok false)) :
    c'.isExhausted = true ∨ c'.pending < c.pending ∨ f = true ∧ c'.pending ≤ c.pending := by
  fun_induction seekDatum f c with
  | case1 => injection h with _ h; cases h
  | case2 f c skipped _ console =>
    obtain ⟨rfl, -⟩ := Prod.mk.inj h
    exact .inr (.inr ⟨(Bool.and_eq_true_iff.1 console).1, pending_skipBuffered_le c⟩)
  | case3 f c skipped _ _ c₁ _ less ih =>
    obtain he | hp | ⟨-, hp⟩ := ih h
    · exact .inl he
    · exact .inr (.inl (by omega))
    · exact .inr (.inl (by omega))
  | case4 f c skipped buffered _ c₁ fetch =>
    obtain ⟨rfl, -⟩ := Prod.mk.inj h
    exact .inl (isExhausted_of_nextLine fetch (by simpa [hasBuffered] using buffered))
  | case5 => cases h

/-- A line that is used up is replaced by the next one, except on a console that was asked for one already. -/
theorem seekDatum_of_used {c c' : Cursor} {fetched found : Bool} (hasks : fetched = false ∨ c.console = none)
    (hr : c.skipBuffered.rest = []) (h : c.skipBuffered.nextLine = (c', .ok found)) :
    c.seekDatum fetched = if found then c'.seekDatum true else (c', .ok false) := by
  have hbuffered : c.skipBuffered.hasBuffered = false := by simp [hasBuffered, hr]
  have hgoes : (fetched && c.skipBuffered.isConsole) = false := by
    obtain rfl | hconsole := hasks
    · rfl
    · simp [isConsole, skipBuffered, advance, hconsole]
  rw [seekDatum]
  simp only [hbuffered, hgoes, Bool.false_eq_true, if_false]
  split
  · next h' => cases h.symm.trans h'; rfl
  · next h' => cases h.symm.trans h'; rfl
  · next h' => cases h.symm.trans h'

/-- How a read comes about: no line, no datum on the lines at hand, or the beginning of a datum, which is parsed. -/
theorem read_cases (c : Cursor) :
    (∃ c' why, c.seekDatum false = (c', .error why) ∧ c.read = (c', .error (.input why))) ∨
    (∃ c', c.seekDatum false = (c', .ok false) ∧ c.read = (c', .ok none)) ∨
    (∃ c', c.seekDatum false = (c', .ok true) ∧
      c.read = ((c'.openDatum.feedParser .start).1.closeDatum, (c'.openDatum.feedParser .start).2.map some)) := by
  unfold read
  rcases h : c.seekDatum false with ⟨c', why | found⟩
  · exact .inl ⟨c', why, rfl, rfl⟩
  · cases found
    · exact .inr (.inl ⟨c', rfl, rfl⟩)
    · exact .inr (.inr ⟨c', rfl, rfl⟩)

/-- **A datum or a syntax error has been consumed.** -/
theorem read_consumes {c c' : Cursor} {result : Except ReadFailure (Option Datum)} (h : c.read = (c', result))
    (hresult : (∃ d, result = .ok (some d)) ∨ ∃ error excerpt, result = .error (.text error excerpt)) :
    c'.pending < c.pending := by
  obtain ⟨c₁, why, -, hread⟩ | ⟨c₁, -, hread⟩ | ⟨c₁, hseek, hread⟩ := read_cases c
  · cases h.symm.trans hread
    obtain ⟨d, hd⟩ | ⟨error, excerpt, he⟩ := hresult
    · cases hd
    · cases he
  · cases h.symm.trans hread
    obtain ⟨d, hd⟩ | ⟨error, excerpt, he⟩ := hresult
    · cases hd
    · cases he
  · obtain ⟨rfl, -⟩ := Prod.mk.inj (h.symm.trans hread)
    obtain ⟨hr, hp⟩ := seekDatum_found hseek
    have token : c₁.openDatum.nextToken.1.pending < c₁.pending := pending_nextToken_lt (c := c₁.openDatum) hr
    have parse := pending_feedParser_le_token .start c₁.openDatum
    have close : (c₁.openDatum.feedParser .start).1.closeDatum.pending =
        (c₁.openDatum.feedParser .start).1.pending := rfl
    omega

/-- **A read that brings nothing has found the end of the source, or consumed something all the same.** -/
theorem read_nothing {c c' : Cursor} (h : c.read = (c', .ok none)) :
    c'.isExhausted = true ∨ c'.pending < c.pending := by
  obtain ⟨c₁, why, -, hread⟩ | ⟨c₁, hseek, hread⟩ | ⟨c₁, -, hread⟩ := read_cases c
  · cases h.symm.trans hread
  · cases h.symm.trans hread
    obtain he | hp | ⟨hf, -⟩ := seekDatum_none hseek
    · exact .inl he
    · exact .inr hp
    · cases hf
  · have result := (Prod.mk.inj (h.symm.trans hread)).2
    cases hd : (c₁.openDatum.feedParser .start).2 with
    | ok d => rw [hd] at result; cases result
    | error e => rw [hd] at result; cases result

end Cursor

end LispSession
