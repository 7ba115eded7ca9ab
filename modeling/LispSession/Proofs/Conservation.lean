import LispSession.Proofs.Course
/-!
# No input is lost

The account of a text that is given in full: what was consumed and what is left always make the text.  It is kept line
by line (`Cursor.StandsIn`), and every happening of a course keeps it; so no read loses a character or reads one twice,
whatever it brings.

As each line but the last has one line end, which is its last character, the number of the current line counts the line
ends that were consumed, as long as something of the line is left (`count_newline`).  A datum opens at such a place.
-/
namespace LispSession

/-! ## The lines of a text -/

/-- The lines of a text, the last one without a line end if the text has none there. -/
def textLines (text : List Char) : List (List Char) :=
  (splitLines '\n' text).1 ++ if (splitLines '\n' text).2.isEmpty then [] else [(splitLines '\n' text).2]

theorem deliveries_ofText (text : List Char) : (Feed.ofText text).deliveries = (textLines text).map .line := by
  rw [textLines, List.map_append, Feed.ofText]
  dsimp only
  split <;> rfl

theorem flatten_textLines (text : List Char) : (textLines text).flatten = text := by
  have hflatten := splitLines_flatten '\n' text
  rw [textLines, List.flatten_append]
  split
  · next hempty =>
    rw [List.isEmpty_iff.1 hempty] at hflatten
    exact hflatten
  · rwa [List.flatten_singleton]

theorem length_linesAfter (text : List Char) : ∀ (done : List (List Char)) (line : List Char),
    (linesAfter '\n' done line text).1.length = done.length + text.count '\n' := by
  induction text with
  | nil => simp [linesAfter]
  | cons c cs ih =>
    intro done line
    rw [linesAfter, List.count_cons]
    split
    · rw [ih, List.length_cons]
      omega
    · rw [ih, Nat.add_zero]

theorem linesAfter_newline (text : List Char) : ∀ (done : List (List Char)) (line : List Char),
    (linesAfter '\n' done line (text ++ ['\n'])).2 = [] := by
  induction text with
  | nil => simp [linesAfter]
  | cons c cs ih =>
    intro done line
    rw [List.cons_append, linesAfter]
    split <;> exact ih _ _

/-- A text that ends with a line end has as many lines as line ends. -/
theorem length_textLines (text : List Char) : (textLines (text ++ ['\n'])).length = (text ++ ['\n']).count '\n' := by
  have hlast : (splitLines '\n' (text ++ ['\n'])).2 = [] := linesAfter_newline text [] []
  have hlines : (splitLines '\n' (text ++ ['\n'])).1.length = 0 + (text ++ ['\n']).count '\n' :=
    length_linesAfter _ [] []
  rw [textLines, hlast, List.length_append, hlines, Nat.zero_add]
  rfl

theorem newline_notMem_lines (text : List Char) : ∀ (done : List (List Char)) (line : List Char), '\n' ∉ line →
    (∀ l ∈ done, '\n' ∉ l.dropLast) →
    (∀ l ∈ (linesAfter '\n' done line text).1, '\n' ∉ l.dropLast) ∧ '\n' ∉ (linesAfter '\n' done line text).2 := by
  induction text with
  | nil =>
    intro done line hline hdone
    exact ⟨fun l hl => hdone l (List.mem_reverse.1 hl), by rwa [linesAfter, List.mem_reverse]⟩
  | cons c cs ih =>
    intro done line hline hdone
    rw [linesAfter]
    split
    · refine ih _ _ List.not_mem_nil fun l hl => ?_
      obtain rfl | hl := List.mem_cons.1 hl
      · rwa [List.reverse_cons, List.dropLast_concat, List.mem_reverse]
      · exact hdone l hl
    · next hc =>
      refine ih _ _ (fun hmem => ?_) hdone
      obtain rfl | hmem := List.mem_cons.1 hmem
      · exact hc (beq_self_eq_true _)
      · exact hline hmem

theorem count_newline_line {line : List Char} (hne : line ≠ []) (hends : EndsLine line)
    (hinside : '\n' ∉ line.dropLast) :
    line.count '\n' = 1 := by
  have hlast : line.getLast hne = '\n' := hends _ (List.getLast?_eq_some_getLast hne)
  rw [← List.dropLast_append_getLast hne, hlast, List.count_append, List.count_eq_zero_of_not_mem hinside]
  rfl

/-- Every line but the last has one line end, and no line has one before its last character. -/
theorem newlines_textLines {text line : List Char} {earlier later : List (List Char)}
    (h : textLines text = earlier ++ line :: later) :
    (∀ l ∈ earlier, l.count '\n' = 1) ∧ '\n' ∉ line.dropLast := by
  have hends : ∀ l ∈ (splitLines '\n' text).1, l ≠ [] ∧ EndsLine l := linesAfter_endsLine text [] [] nofun
  have hcut : (∀ l ∈ (splitLines '\n' text).1, '\n' ∉ l.dropLast) ∧ '\n' ∉ (splitLines '\n' text).2 :=
    newline_notMem_lines text [] [] nofun nofun
  unfold textLines at h
  generalize splitLines '\n' text = cut at h hends hcut
  have hwhole : ∀ l ∈ cut.1, l.count '\n' = 1 :=
    fun l hl => count_newline_line (hends l hl).1 (hends l hl).2 (hcut.1 l hl)
  have hlast (as bs : List (List Char)) (htail : (if cut.2.isEmpty then [] else [cut.2]) = as ++ line :: bs) :
      as = [] ∧ '\n' ∉ line.dropLast := by
    split at htail
    · cases as <;> cases htail
    · obtain ⟨rfl, -⟩ | ⟨-, hnil⟩ := List.append_eq_singleton_iff.1 htail.symm
      · cases htail
        exact ⟨rfl, fun hmem => hcut.2 (List.mem_of_mem_dropLast hmem)⟩
      · cases hnil
  -- The line is the one without an end, or one of those in front of it.
  obtain ⟨as, rfl, htail⟩ | ⟨bs, hfront, hback⟩ := List.append_eq_append_iff.1 h
  · obtain ⟨rfl, hline⟩ := hlast as later htail
    rw [List.append_nil]
    exact ⟨hwhole, hline⟩
  · cases bs with
    | nil =>
      rw [List.append_nil] at hfront
      exact ⟨hfront ▸ hwhole, (hlast [] later hback.symm).2⟩
    | cons l bs =>
      obtain ⟨rfl, -⟩ := List.cons.inj hback
      rw [hfront] at hwhole hcut
      exact ⟨fun l hl => hwhole l (List.mem_append_left _ hl), hcut.1 line (by simp)⟩

/-- **Line ends in front of a place in the text**: one for each earlier line, if something of the current line is
left. -/
theorem count_newline {text passed rest : List Char} {earlier later : List (List Char)}
    (h : textLines text = earlier ++ (passed ++ rest) :: later) (hne : rest ≠ []) :
    (earlier.flatten ++ passed).count '\n' = earlier.length := by
  obtain ⟨hearlier, hline⟩ := newlines_textLines h
  rw [List.dropLast_append_of_ne_nil hne, List.mem_append, not_or] at hline
  have hsum : (earlier.map (List.count '\n')).sum = earlier.length := by
    have hones : ∀ n ∈ earlier.map (List.count '\n'), n = 1 := by simpa using hearlier
    rw [List.sum_eq_card_nsmul _ 1 hones, List.length_map, smul_eq_mul, Nat.mul_one]
  rw [List.count_append, List.count_flatten, hsum, List.count_eq_zero_of_not_mem hline.1, Nat.add_zero]

namespace Cursor

/-! ## The account of a text -/

/-- Where a cursor stands in a text of these lines, `consumed` being behind it: before the first line, or behind the
part `passed` of the line that its number names. -/
inductive StandsIn (lines : List (List Char)) (consumed : List Char) (c : Cursor) : Prop
  | atStart (number : c.lineNumber = 0) (rest : c.rest = []) (nothing : consumed = [])
      (ahead : c.deliveries = lines.map .line)
  | onLine {earlier later : List (List Char)} {passed : List Char}
      (text : lines = earlier ++ (passed ++ c.rest) :: later) (number : c.lineNumber = earlier.length + 1)
      (behind : consumed = earlier.flatten ++ passed) (ahead : c.deliveries = later.map .line)

variable {c c' : Cursor} {e : Happening} {es : List Happening} {lines : List (List Char)} {consumed : List Char}

theorem StandsIn.congr (hc : c.StandsIn lines consumed) (hnumber : c'.lineNumber = c.lineNumber)
    (hrest : c'.rest = c.rest) (hahead : c'.deliveries = c.deliveries) : c'.StandsIn lines consumed := by
  cases hc with
  | atStart number rest nothing ahead =>
    exact .atStart (hnumber.trans number) (hrest.trans rest) nothing (hahead.trans ahead)
  | onLine text number behind ahead =>
    exact .onLine (hrest ▸ text) (hnumber.trans number) behind (hahead.trans ahead)

theorem StandsIn.line {text : List Char} {later : List Delivery} (hc : c.StandsIn lines consumed) (hused : c.rest = [])
    (hdelivered : c.deliveries = .line text :: later) (hnumber : c'.lineNumber = c.lineNumber + 1)
    (hrest : c'.rest = text) (hahead : c'.deliveries = later) : c'.StandsIn lines consumed := by
  subst hrest hahead
  cases hc with
  | atStart number rest nothing ahead =>
    obtain ⟨line, lines, rfl, hline, hlater⟩ := List.map_eq_cons_iff.1 (ahead.symm.trans hdelivered)
    cases hline
    exact @StandsIn.onLine _ _ c' [] lines [] rfl (by rw [hnumber, number]; rfl) nothing hlater.symm
  | @onLine earlier behindLine passed htext number behind ahead =>
    obtain ⟨line, lines, rfl, hline, hlater⟩ := List.map_eq_cons_iff.1 (ahead.symm.trans hdelivered)
    cases hline
    rw [hused, List.append_nil] at htext
    refine @StandsIn.onLine _ _ c' (earlier ++ [passed]) lines [] ?_ ?_ ?_ hlater.symm
    · rw [htext, List.append_assoc]
      rfl
    · rw [hnumber, number, List.length_append]
      rfl
    · rw [behind, List.flatten_append, List.flatten_singleton, List.append_nil]

/-- **Every happening keeps the account.** -/
theorem Does.standsIn (h : c.Does e c') (hc : c.StandsIn lines consumed) :
    c'.StandsIn lines (consumed ++ taken [e]) := by
  cases h with
  | @took ch after next =>
    cases hc with
    | atStart number rest => cases rest.symm.trans next
    | @onLine earlier later passed text number behind ahead =>
      have hrest : (c.advance 1).rest = after := by rw [advance, next]; rfl
      refine @StandsIn.onLine _ _ (c.advance 1) earlier later (passed ++ [ch]) ?_ number ?_ ahead
      · rw [text, next, hrest, List.append_assoc]
        rfl
      · rw [behind, List.append_assoc]
        rfl
  | asked used goesOn =>
    rw [taken_asked, taken_nil, List.append_nil]
    have hasked := nextLine_asked goesOn
    generalize c.nextLine = answer at hasked ⊢
    cases hasked with
    | stuck => exact hc.congr rfl rfl rfl
    | line delivered => exact hc.line used delivered rfl rfl rfl
    | failure delivered =>
      cases hc with
      | atStart _ _ _ ahead | onLine _ _ _ ahead =>
        obtain ⟨line, -, -, hline, -⟩ := List.map_eq_cons_iff.1 (ahead.symm.trans delivered)
        cases hline
    | ended delivered => exact hc.congr rfl used.symm rfl
  | opened | closed =>
    rw [show taken [_] = [] from rfl, List.append_nil]
    exact hc.congr rfl rfl rfl

/-- **So does every course.** -/
theorem Course.standsIn (h : c.Course es c') (hc : c.StandsIn lines consumed) :
    c'.StandsIn lines (consumed ++ taken es) := by
  induction h generalizing consumed with
  | nil => rwa [taken_nil, List.append_nil]
  | @cons c c₁ c' e es first _ ih =>
    have hlater := ih (first.standsIn hc)
    rwa [List.append_assoc, ← taken_append] at hlater

theorem standsIn_start (text : String) : (start (.code text)).StandsIn (textLines text.toList) [] :=
  .atStart rfl rfl rfl (deliveries_ofText text.toList)

/-- **What was consumed and what is left make the text.** -/
theorem StandsIn.conserves {ahead : List Char} (hc : c.StandsIn lines consumed) (hahead : c.Before ahead) :
    lines.flatten = consumed ++ ahead := by
  obtain ⟨later, hdeliveries, rfl, -⟩ := hahead.lines
  have hinjective : Function.Injective Delivery.line := fun _ _ h => Delivery.line.inj h
  cases hc with
  | atStart number rest nothing ahead =>
    rw [hinjective.list_map (ahead.symm.trans hdeliveries), nothing, rest]
    rfl
  | onLine text number behind ahead =>
    rw [text, hinjective.list_map (ahead.symm.trans hdeliveries), behind]
    simp

/-- The line that a datum opens on is found by counting line ends. -/
theorem StandsIn.lineNumber_eq {text : List Char} (hc : c.StandsIn (textLines text) consumed) (hr : c.rest ≠ []) :
    c.lineNumber = 1 + consumed.count '\n' := by
  cases hc with
  | atStart number rest => exact absurd rest hr
  | onLine lines number behind ahead => rw [number, behind, count_newline lines hr, Nat.add_comm]

theorem Before.ahead_of_isExhausted {ahead : List Char} (h : c.Before ahead) (hend : c.isExhausted = true) :
    ahead = [] := by
  obtain ⟨later, hdeliveries, hahead, -⟩ := h.lines
  obtain ⟨hr, hatEnd⟩ := rest_of_isExhausted hend
  rw [h.atEnd hatEnd] at hdeliveries
  rw [hahead, hr, List.map_eq_nil_iff.1 hdeliveries.symm]
  rfl

end Cursor

/-! ## One read after the other -/

/-- What happens in a read of a text, of which `before` was consumed by then, and what the read brings.  It goes over
blanks and comments, and finds nothing at the end of the text, where a comment may lack its line end.  Otherwise a datum
is opened; its text is what is consumed while it is open, its line is found by counting line ends, and an error is
reported with both. -/
inductive ReadBlock (text before : List Char) : List Happening → Except ReadFailure (Option Datum) → Prop
  | nothing {search : List Happening} (moves : ∀ e ∈ search, e.isMove = true)
      (blank : Atmosphere (taken search ++ ['\n'])) (all : text = before ++ taken search) :
      ReadBlock text before search (.ok none)
  | datum {search inside : List Happening} {line : Nat} {result : Except ReadFailure (Option Datum)}
      (moves : ∀ e ∈ search ++ inside, e.isMove = true) (blank : Atmosphere (taken search))
      (number : line = 1 + (before ++ taken search).count '\n') (begun : taken inside ≠ []) (found : result ≠ .ok none)
      (reported : ∀ e excerpt, result = .error (.text e excerpt) → excerpt = excerptOf line (taken inside)) :
      ReadBlock text before (search ++ .opened line :: inside ++ [.closed (taken inside)]) result

theorem atmosphere_of_gapOf {gap more : List Char} (h : gapOf (gap ++ more) = gap) :
    (more ≠ [] → Atmosphere gap ∧ BeginsToken more) ∧ Atmosphere (gap ++ ['\n']) := by
  obtain ⟨gap', ahead, heq, hgap', hblank, hbegins⟩ | ⟨hall, hblank⟩ := gapOf_spec (gap ++ more)
  · obtain rfl := h.symm.trans hgap'
    obtain rfl := List.append_cancel_left heq
    exact ⟨fun _ => ⟨hblank, hbegins⟩, hblank.append (.blank (by decide) .nil)⟩
  · have hnil : more = [] := List.append_right_eq_self.1 (hall.symm.trans h)
    subst hnil
    rw [List.append_nil] at hblank
    exact ⟨fun hne => absurd rfl hne, hblank⟩

/-- What happens before a read of this number. -/
def history (block : Nat → List Happening) (k : Nat) : List Happening := (List.range k).flatMap block

theorem history_succ (block : Nat → List Happening) (k : Nat) : history block (k + 1) = history block k ++ block k := by
  rw [history, List.range_succ, List.flatMap_append, List.flatMap_singleton]
  rfl

namespace Cursor

variable {c : Cursor} {text before ahead : List Char}

/-- What was consumed on the way from one place of the text to another stands between them. -/
theorem Course.passes {es : List Happening} {c' : Cursor} {lines : List (List Char)} {consumed passed : List Char}
    (h : c.Course es c') (hstands : c.StandsIn lines consumed) (hhere : c.Before (passed ++ ahead))
    (hthere : c'.Before ahead) :
    taken es = passed := by
  have hsame := (hstands.conserves hhere).symm.trans ((h.standsIn hstands).conserves hthere)
  rw [List.append_assoc] at hsame
  exact (List.append_cancel_right (List.append_cancel_left hsame)).symm

/-- Looking for a datum goes over the blanks and comments in front of what is left. -/
theorem GoesOver.searched {es : List Happening} {c₁ : Cursor} {gap more : List Char} (hes : c.GoesOver es c₁)
    (hbefore : c.Before (gap ++ more)) (hgap : gapOf (gap ++ more) = gap) (hmore : c₁.Before more)
    (hstands : c.StandsIn (textLines text) before) :
    text = before ++ taken es ++ more ∧ (more ≠ [] → Atmosphere (taken es)) ∧ Atmosphere (taken es ++ ['\n']) := by
  have htext := (hes.moves.course.standsIn hstands).conserves hmore
  rw [flatten_textLines] at htext
  obtain rfl := hes.moves.course.passes hstands hbefore hmore
  obtain ⟨hfront, hend⟩ := atmosphere_of_gapOf hgap
  exact ⟨htext, fun hne => (hfront hne).1, hend⟩

/-- **What happens in one read of a text.** -/
theorem read_block (text : List Char) (hbefore : c.Before ahead) : ∃ block, c.Course block c.read.1 ∧
    ∀ before, c.StandsIn (textLines text) before → ReadBlock text before block c.read.2 := by
  obtain ⟨es, c₁, found, hes, hseek, hread⟩ := read_course c
  obtain ⟨c₁, gap, more, rfl, hgap, hmore, hseek', -⟩ := hbefore.seekDatum false
  cases hseek.symm.trans hseek'
  obtain ⟨hnone, -⟩ | ⟨hfound, fs, c₂, result, hparse, hfs, hread⟩ := hread
  · have hnil : more = [] := by simpa using hnone
    subst hnil
    have hread : c.read = (c₁, .ok none) := by rw [read, hseek]; rfl
    rw [hread]
    refine ⟨es, hes.moves.course, fun before hstands => ?_⟩
    obtain ⟨htext, -, hblank⟩ := hes.searched hbefore hgap hmore hstands
    exact .nothing hes.moves.moves hblank (by rw [htext, List.append_nil])
  · have hr : c₁.rest ≠ [] := (seekDatum_found (hseek.trans (by rw [hfound]))).1
    have hne : more ≠ [] := by simpa using hfound
    have hmoves : ∀ e ∈ es ++ fs, e.isMove = true := List.forall_mem_append.2 ⟨hes.moves.moves, hfs.moves⟩
    rw [hread]
    refine ⟨_, hes.moves.around hfs, fun before hstands => ?_⟩
    obtain ⟨-, hblank, -⟩ := hes.searched hbefore hgap hmore hstands
    have hnumber := (hes.moves.course.standsIn hstands).lineNumber_eq hr
    have hbegun : taken fs ≠ [] := taken_ne_nil (c := c₁.openDatum) hr (by rwa [hparse])
    refine .datum hmoves (hblank hne) hnumber hbegun (fun hnone => by cases result <;> cases hnone)
      fun e excerpt he => ?_
    cases result with
    | ok d => cases he
    | error failure =>
      cases he
      rw [feedParser_excerpt rfl hparse, hfs.excerpt, hmore.name]
      rfl

theorem before_afterReads (text : String) (k : Nat) : ∃ ahead, ((start (.code text)).afterReads k).Before ahead := by
  induction k with
  | zero => exact ⟨_, before_start text⟩
  | succ k ih =>
    obtain ⟨ahead, hahead⟩ := ih
    obtain ⟨result, ahead', hread⟩ := read_ahead ahead
    obtain ⟨c', line, hc', hbefore⟩ := hread hahead
    exact ⟨ahead', by rwa [afterReads, hc']⟩

/-- The courses of single reads make the course of all of them. -/
theorem course_history {block : Nat → List Happening}
    (h : ∀ k, (c.afterReads k).Course (block k) (c.afterReads k).read.1) (k : Nat) :
    c.Course (history block k) (c.afterReads k) := by
  induction k with
  | zero => exact .nil
  | succ k ih =>
    rw [history_succ]
    exact ih.append (h k)

end Cursor

/-- **No read of a text loses a character, reads one twice, or counts a line wrong.**  There is one history of all
reads: each goes over blanks and comments, and records as the text of a datum what it consumes while the datum is open
(`ReadBlock`).  What was consumed is at any time the text up to the place where the cursor stands, which is between two
characters of the line that its number names (`StandsIn`); a line is asked for only where nothing of the current one is
left; and once the source is used up, all of it was consumed. -/
theorem reading_conserves_text (text : String) : ∃ block : Nat → List Happening, ∀ k,
    (Cursor.start (.code text)).Course (history block k) ((Cursor.start (.code text)).afterReads k) ∧
    ReadBlock text.toList (taken (history block k)) (block k) ((Cursor.start (.code text)).afterReads k).read.2 ∧
    taken (history block k) <+: text.toList ∧
    (((Cursor.start (.code text)).afterReads k).isExhausted = true → taken (history block k) = text.toList) ∧
    ∀ front back, history block k = front ++ back → ∃ m, (Cursor.start (.code text)).Course front m ∧
      m.Course back ((Cursor.start (.code text)).afterReads k) ∧ m.StandsIn (textLines text.toList) (taken front) ∧
      ∀ prompt seen later, back = .asked prompt seen :: later → m.rest = [] := by
  have hbefore := Cursor.before_afterReads text
  choose ahead hahead using hbefore
  choose block hcourse hblock using fun k => Cursor.read_block text.toList (hahead k)
  refine ⟨block, fun k => ?_⟩
  have hhistory := Cursor.course_history hcourse k
  have hstands := hhistory.standsIn (Cursor.standsIn_start text)
  rw [List.nil_append] at hstands
  have htext := hstands.conserves (hahead k)
  rw [flatten_textLines] at htext
  refine ⟨hhistory, hblock k _ hstands, ⟨ahead k, htext.symm⟩, fun hend => ?_, fun front back hsplit => ?_⟩
  · rw [htext, (hahead k).ahead_of_isExhausted hend, List.append_nil]
  · rw [hsplit] at hhistory
    obtain ⟨m, hfront, hback⟩ := hhistory.split
    refine ⟨m, hfront, hback, hfront.standsIn (Cursor.standsIn_start text), fun prompt seen later hasked => ?_⟩
    subst hasked
    cases hback with
    | cons first _ =>
      cases first with
      | asked used => exact used

end LispSession
