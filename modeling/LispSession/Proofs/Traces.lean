import LispSession.Primitive.Call
import LispSession.Proofs.Printed.OneLine
import LispSession.Proofs.Registry
/-!
# Traces, line by line

A trace shows an invocation and the registered steps behind it (`Chain.row`), each in a line of its own as long as
nothing that is shown breaks the line.  The text of a value does not (`Value.Worded.onOneLine`), but a message and the
name of a source stand in a trace as they are.  So a trace has a line for each link and one more for each line feed in
these (`Chain.Traced`).
-/
namespace LispSession

/-! ## Lines -/

/-- The lines of a text.  The empty text has none. -/
def linesIn (text : String) : List (List Char) := if text = "" then [] else text.toList.splitOn '\n'

def lineFeeds (text : String) : Nat := text.toList.count '\n'

theorem lineFeeds_append (a b : String) : lineFeeds (a ++ b) = lineFeeds a + lineFeeds b := by
  rw [lineFeeds, String.toList_append, List.count_append]
  rfl

theorem lineFeeds_eq_zero {text : String} : lineFeeds text = 0 ↔ '\n' ∉ text.toList := List.count_eq_zero

theorem lineFeeds_toString (n : Nat) : lineFeeds (toString n) = 0 := by
  rw [lineFeeds_eq_zero]
  intro hmem
  rw [Nat.toString_eq_repr, Nat.repr, String.toList_ofList] at hmem
  exact absurd (Nat.isDigit_of_mem_toDigits (by decide) (by decide) hmem) (by decide)

theorem length_splitOn (text : List Char) : (text.splitOn '\n').length = text.count '\n' + 1 := by
  induction text with
  | nil => rfl
  | cons c text ih =>
    rw [List.splitOn_cons_eq_if_modifyHead, List.count_cons]
    split
    · rw [List.length_cons, ih]
    · rw [List.length_modifyHead, ih, Nat.add_zero]

/-- What is joined with line feeds is taken apart again, piece by piece. -/
theorem splitOn_intercalate_flatMap : ∀ {texts : List (List Char)}, texts ≠ [] →
    (['\n'].intercalate texts).splitOn '\n' = texts.flatMap fun text => text.splitOn '\n'
  | [text], _ => by simp
  | text :: other :: texts, _ => by
    rw [List.intercalate_cons_cons, List.append_assoc, List.singleton_append, List.splitOn_append_cons_self,
      splitOn_intercalate_flatMap (List.cons_ne_nil other texts)]
    rfl

/-! ## Payloads -/

/-- How many line feeds there are in what is shown of a text. -/
def shownFeeds (text : String) : Nat := (text.toList.take shownLength).count '\n'

theorem lineFeeds_shorten (text : String) : lineFeeds (shorten text) = shownFeeds text := by
  rw [shorten, shownFeeds]
  split
  · rw [lineFeeds_append, lineFeeds, String.toList_ofList]
    rfl
  · next hshort => rw [List.take_of_length_le (Nat.le_of_not_lt hshort), lineFeeds]

/-- Values whose names are words have no line feed to show. -/
theorem Value.Worded.shownFeeds {v : Value} (h : v.Worded) : shownFeeds v.text = 0 :=
  List.count_eq_zero.2 fun hmem => (h.onOneLine _ (List.mem_of_mem_take hmem)).1 rfl

namespace Payload

/-- How many line feeds a payload brings into a trace. -/
def breaks : Payload → Nat
  | .none | .resume _ => 0
  | .eval expression _ => shownFeeds expression.text
  | .result v => shownFeeds v.text
  | .error report => shownFeeds report.message
  | .cursor c => lineFeeds c.name

/-- A payload that breaks no line: the names in its value are words, and no line feed is in the name of its source or in
what is shown of its message. -/
def Quiet : Payload → Prop
  | .none | .resume _ => True
  | .eval expression _ => expression.Worded
  | .result v => v.Worded
  | .error report => '\n' ∉ report.message.toList.take shownLength
  | .cursor c => '\n' ∉ c.name.toList

theorem Quiet.breaks {p : Payload} (h : p.Quiet) : p.breaks = 0 := by
  cases p with
  | none | resume => rfl
  | eval expression environment => exact (h 0).shownFeeds
  | result v => exact Value.Worded.shownFeeds h
  | error report => exact List.count_eq_zero.2 h
  | cursor c => exact List.count_eq_zero.2 h

theorem lineFeeds_braced {key : String} (hkey : lineFeeds key = 0) (inside : String) :
    lineFeeds (text.braced key inside) = lineFeeds inside := by
  have marks : lineFeeds "\x7b" = 0 ∧ lineFeeds ": " = 0 ∧ lineFeeds "\x7d" = 0 := by decide
  simp only [text.braced, lineFeeds_append, hkey, marks, Nat.zero_add, Nat.add_zero]

theorem lineFeeds_tag (c : Cursor) : lineFeeds c.tag = lineFeeds c.name := by
  have marks : lineFeeds "<" = 0 ∧ lineFeeds ":" = 0 ∧ lineFeeds ">" = 0 := by decide
  simp only [Cursor.tag, lineFeeds_append, lineFeeds_toString, marks, Nat.zero_add, Nat.add_zero]

theorem lineFeeds_text (p : Payload) : lineFeeds p.text = p.breaks := by
  cases p with
  | none => rfl
  | resume recovered => cases recovered <;> rfl
  | eval expression environment => rw [text, lineFeeds_braced (by decide), lineFeeds_shorten, breaks]
  | result v => rw [text, lineFeeds_braced (by decide), lineFeeds_shorten, breaks]
  | error report => rw [text, lineFeeds_braced (by decide), lineFeeds_shorten, breaks]
  | cursor c => rw [text, lineFeeds_braced (by decide), lineFeeds_tag, breaks]

end Payload

/-! ## The links that are shown -/

namespace Chain

variable {c : Chain} {i : Invocation}

/-- The first link is marked, and those behind it are moved in. -/
def marked : List String → List String
  | [] => []
  | first :: others => ("-> " ++ first) :: others.map ("   " ++ ·)

theorem lineFeeds_shown (c : Chain) (i : Invocation) : lineFeeds (c.shown i) = i.payload.breaks := by
  have name (stage : Stage) : lineFeeds stage.name = 0 := by cases stage <;> decide
  have stage : lineFeeds ((c.steps[i.id]?.map fun s => s.stage.name).getD "") = 0 := by
    cases c.steps[i.id]? with
    | none => rfl
    | some s => exact name s.stage
  have marks : lineFeeds "#" = 0 ∧ lineFeeds " " = 0 := by decide
  simp only [shown, lineFeeds_append, lineFeeds_toString, stage, marks, Payload.lineFeeds_text, Nat.zero_add]

/-- A trace has the same links in front, however deep it goes. -/
theorem row_prefix (c : Chain) (depth : Nat) (i : Invocation) : c.row depth i <+: c.row (depth + 1) i := by
  induction depth generalizing i with
  | zero => exact List.nil_prefix
  | succ depth ih =>
    rw [row, row, List.prefix_cons_inj]
    split
    · exact List.nil_prefix
    · next next _ => exact ih next

/-- Where links come to an end, the links of a trace are those on the way, as far as it goes. -/
theorem Linked.ids_row (linked : c.Linked) {path : List StepId} (depth : Nat) (known : c.Knows i)
    (h : c.Route i.successor path) :
    (c.row depth i).map (·.id) = (i.id :: path).take depth := by
  induction depth generalizing i path with
  | zero => rfl
  | succ depth ih =>
    rw [row, List.map_cons, List.take_succ_cons]
    generalize hstart : i.successor = start at h
    cases h with
    | nil => rw [nextLink?_none hstart, List.take_nil]; rfl
    | cons link rest =>
      obtain ⟨s, hs, rfl⟩ := getElem?_of_successor link
      rw [nextLink?_some hstart hs]
      exact congrArg _ (ih (linked.knows hs s.slot) rest)

/-- A trace that is not as deep as it may be has come to an end. -/
theorem Linked.exists_route_of_short (linked : c.Linked) {depth : Nat} (known : c.Knows i)
    (h : (c.row depth i).length < depth) :
    ∃ path, c.Route i.successor path := by
  induction depth generalizing i with
  | zero => exact absurd h (Nat.not_lt_zero _)
  | succ depth ih =>
    cases hnext : i.successor with
    | none => exact ⟨[], .nil⟩
    | some next =>
      obtain ⟨s, hs⟩ := getElem?_of_lt (known.successor next hnext)
      rw [row, nextLink?_some hnext hs, List.length_cons] at h
      obtain ⟨path, hpath⟩ := ih (linked.knows hs s.slot) (Nat.lt_of_succ_lt_succ h)
      exact ⟨next :: path, .cons (successor_of_getElem? hs) hpath⟩

theorem length_row_le (c : Chain) (depth : Nat) (i : Invocation) : (c.row depth i).length ≤ depth := by
  induction depth generalizing i with
  | zero => exact Nat.le_refl 0
  | succ depth ih =>
    rw [row, List.length_cons]
    split
    · exact Nat.succ_le_succ (Nat.zero_le depth)
    · next next _ => exact Nat.succ_le_succ (ih next)

/-- A trace that is not as deep as it may be does not become deeper. -/
theorem row_of_short (c : Chain) {depth : Nat} (h : (c.row depth i).length < depth) :
    c.row (depth + 1) i = c.row depth i := by
  induction depth generalizing i with
  | zero => exact absurd h (Nat.not_lt_zero _)
  | succ depth ih =>
    rw [row, List.length_cons] at h
    rw [row, row]
    cases hnext : c.nextLink? i with
    | none => rfl
    | some next =>
      rw [hnext] at h
      exact congrArg _ (ih (Nat.lt_of_succ_lt_succ h))

/-! ## Traces -/

theorem marked_eq (texts : List String) :
    (texts.take 1).map ("-> " ++ ·) ++ (texts.drop 1).map ("   " ++ ·) = marked texts := by
  cases texts <;> rfl

theorem lineFeeds_marked (texts : List String) : (marked texts).map lineFeeds = texts.map lineFeeds := by
  have marks : lineFeeds "-> " = 0 ∧ lineFeeds "   " = 0 := by decide
  cases texts with
  | nil => rfl
  | cons first others =>
    rw [marked, List.map_cons, List.map_cons, List.map_map, lineFeeds_append, marks.1, Nat.zero_add]
    refine congrArg _ (List.map_congr_left fun text _ => ?_)
    rw [Function.comp, lineFeeds_append, marks.2, Nat.zero_add]

theorem marked_prefix {texts texts' : List String} (h : texts <+: texts') : marked texts <+: marked texts' := by
  obtain ⟨more, rfl⟩ := h
  cases texts with
  | nil => exact List.nil_prefix
  | cons first others =>
    exact ⟨more.map ("   " ++ ·), by rw [List.cons_append, marked, marked, List.map_append, List.cons_append]⟩

theorem linesIn_marked (texts : List String) :
    linesIn ("\n".intercalate (marked texts)) = (marked texts).flatMap fun text => text.toList.splitOn '\n' := by
  cases texts with
  | nil => rfl
  | cons first others =>
    -- The mark of the first link is there even if nothing else is.
    have some_text : "\n".intercalate (marked (first :: others)) ≠ "" := by
      rw [marked, String.intercalate_cons_append]
      intro hempty
      exact absurd (String.append_eq_empty_iff.1 hempty).1 (by decide)
    rw [linesIn, if_neg some_text, String.toList_intercalate, ← List.flatMap_map]
    exact splitOn_intercalate_flatMap (by rw [marked]; exact List.cons_ne_nil _ _)

/-- **There is a line for each text, and one more for each line feed.** -/
theorem length_linesIn_marked (texts : List String) :
    (linesIn ("\n".intercalate (marked texts))).length = texts.length + (texts.map lineFeeds).sum := by
  have pieces (some_texts : List String) :
      (some_texts.flatMap fun text => text.toList.splitOn '\n').length =
          some_texts.length + (some_texts.map lineFeeds).sum := by
    induction some_texts with
    | nil => rfl
    | cons text others ih =>
      rw [List.flatMap_cons, List.length_append, length_splitOn, ih, List.length_cons, List.map_cons, List.sum_cons,
        lineFeeds]
      omega
  have hlength : (marked texts).length = texts.length := by
    rw [← List.length_map lineFeeds, lineFeeds_marked, List.length_map]
  rw [linesIn_marked, pieces, hlength, lineFeeds_marked]

theorem linesIn_marked_of_unbroken {texts : List String} (h : ∀ text ∈ texts, lineFeeds text = 0) :
    linesIn ("\n".intercalate (marked texts)) = (marked texts).map String.toList := by
  have unbroken : ∀ text ∈ marked texts, text.toList.splitOn '\n' = [text.toList] := by
    intro text htext
    have hfeeds : lineFeeds text ∈ texts.map lineFeeds := lineFeeds_marked texts ▸ List.mem_map_of_mem htext
    obtain ⟨text', htext', heq⟩ := List.mem_map.1 hfeeds
    exact List.splitOn_eq_singleton (lineFeeds_eq_zero.1 (heq ▸ h text' htext'))
  rw [linesIn_marked, List.map_eq_flatMap]
  exact List.flatMap_congr unbroken

theorem Linked.trace_eq (linked : c.Linked) (depth : Nat) (known : c.Knows i) :
    c.trace i depth = .ok ("\n".intercalate (marked ((c.row depth i).map c.shown))) := by
  rw [trace, linked.links_eq depth known, ← marked_eq]
  rfl

/-- What a trace of at most so many links reads like. -/
structure Traced (c : Chain) (i : Invocation) (depth : Nat) (text : String) : Prop where
  trace : c.trace i depth = .ok text
  way : ∀ path, c.Route i.successor path → (c.row depth i).map (·.id) = (i.id :: path).take depth
  round : (¬∃ path, c.Route i.successor path) → (c.row depth i).length = depth
  lines : (linesIn text).length = (c.row depth i).length + ((c.row depth i).map fun j => j.payload.breaks).sum
  quiet : (∀ j ∈ c.row depth i, j.payload.Quiet) →
    linesIn text = (marked ((c.row depth i).map c.shown)).map String.toList
  deeper : ∃ text', c.trace i (depth + 1) = .ok text' ∧ linesIn text <+: linesIn text' ∧
    ((∀ j ∈ c.row depth i, j.payload.Quiet) → (linesIn text).length ≤ depth ∧ linesIn text = (linesIn text').take depth)

end Chain

/-- **A trace has a line for each link**, for as many of them as are asked for and are there, and goes on as it began if
more are asked for.  Only what is shown as it is can break a line: a message, and the name of a source. -/
theorem trace_has_a_line_for_each_link {c : Chain} {i : Invocation} (linked : c.Linked) (known : c.Knows i)
    (depth : Nat) :
    ∃ text, c.Traced i depth text := by
  have feeds : ((c.row depth i).map c.shown).map lineFeeds = (c.row depth i).map fun j => j.payload.breaks := by
    simp only [List.map_map, Function.comp_def, c.lineFeeds_shown]
  have hlines := Chain.length_linesIn_marked ((c.row depth i).map c.shown)
  rw [feeds, List.length_map] at hlines
  have begins : linesIn ("\n".intercalate (Chain.marked ((c.row depth i).map c.shown))) <+:
      linesIn ("\n".intercalate (Chain.marked ((c.row (depth + 1) i).map c.shown))) := by
    rw [Chain.linesIn_marked, Chain.linesIn_marked]
    exact (Chain.marked_prefix ((c.row_prefix depth i).map _)).flatMap _
  refine ⟨_, linked.trace_eq depth known, fun path => linked.ids_row depth known, fun hround => ?_, hlines,
    fun hquiet => ?_, _, linked.trace_eq (depth + 1) known, begins, fun hquiet => ?_⟩
  · exact Nat.le_antisymm (c.length_row_le depth i)
      (Nat.le_of_not_lt fun hshort => hround (linked.exists_route_of_short known hshort))
  · refine Chain.linesIn_marked_of_unbroken fun text htext => ?_
    obtain ⟨j, hj, rfl⟩ := List.mem_map.1 htext
    rw [c.lineFeeds_shown, (hquiet j hj).breaks]
  · have none_broken : ((c.row depth i).map fun j => j.payload.breaks).sum = 0 := by
      refine List.sum_eq_zero fun n hn => ?_
      obtain ⟨j, hj, rfl⟩ := List.mem_map.1 hn
      exact (hquiet j hj).breaks
    rw [none_broken, Nat.add_zero] at hlines
    refine ⟨Nat.le_trans (Nat.le_of_eq hlines) (c.length_row_le depth i), ?_⟩
    obtain hshort | hfull := Nat.lt_or_eq_of_le (c.length_row_le depth i)
    · -- The links have come to an end, so the deeper trace is the same.
      rw [c.row_of_short hshort, List.take_of_length_le (hlines ▸ Nat.le_of_lt hshort)]
    · have htake := List.prefix_iff_eq_take.1 begins
      rwa [hlines.trans hfull] at htake

/-- A read that is to report an error, followed by an evaluation that has nothing to evaluate: two links, and two
lines. -/
theorem report_and_successor_make_two_lines :
    ∃ text, Chain.trace ⟨#[⟨.eval, none, 0, .none⟩, ⟨.read, some 0, 0, .none⟩], #[{}]⟩
        ⟨1, some 0, .error ⟨"no", none, none⟩⟩ 5 = .ok text ∧
      linesIn text = ["-> #1 read \x7bmessage: no\x7d".toList, "   #0 eval \x7b\x7d".toList] := by
  let c : Chain := ⟨#[⟨.eval, none, 0, .none⟩, ⟨.read, some 0, 0, .none⟩], #[{}]⟩
  let i : Invocation := ⟨1, some 0, .error ⟨"no", none, none⟩⟩
  have linked : c.Linked := by
    intro s hs next hnext
    obtain rfl | rfl : s = ⟨.eval, none, 0, .none⟩ ∨ s = ⟨.read, some 0, 0, .none⟩ := by simpa [c] using hs
    · cases hnext
    · cases hnext
      decide
  obtain ⟨text, h⟩ :=
    trace_has_a_line_for_each_link (i := i) linked ⟨by decide, fun next hnext => by cases hnext; decide⟩ 5
  refine ⟨text, h.trace, (h.quiet fun j hj => ?_).trans (by decide)⟩
  obtain rfl | rfl : j = i ∨ j = ⟨0, none, .none⟩ := by simpa [c, i, Chain.row, Chain.nextLink?] using hj
  · exact show '\n' ∉ _ by decide
  · trivial

/-- A message that a program makes up breaks the one line of its trace in two, and the second line is none of the next
link. -/
theorem message_breaks_its_line :
    Primitive.error.call [.str 0 "a\nb"] = .failure (.user "a\nb") ∧ (EvalError.user "a\nb").message = "a\nb" ∧
      ∃ text, Chain.trace ⟨#[⟨.handleError, none, 0, .none⟩], #[{}]⟩
          ⟨0, none, .error ⟨"a\nb", none, none⟩⟩ 1 = .ok text ∧
        linesIn text = ["-> #0 handle_error \x7bmessage: a".toList, "b\x7d".toList] ∧ ¬(linesIn text).length ≤ 1 :=
  ⟨rfl, rfl, _, rfl, by decide, by decide⟩

end LispSession
