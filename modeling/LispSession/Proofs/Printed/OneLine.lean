import LispSession.Proofs.Evaluation.Discipline
import LispSession.Proofs.Printed.Legible
/-!
# Values on one line

The text of a value could be broken into lines by what is written as it is: the names of symbols and of closures.  All
else is written with digits, signs and escapes.  So the text of a value stays on one line if all names in it are words
(`Value.Worded.onOneLine`).

A word is what the name of a symbol is when it is read, and names come from nowhere else: evaluation hands them on, from
expressions to values and from the parameters of a procedure to its closure, and makes up none (`Discipline.worded`).
-/
namespace LispSession

/-! ## Lines -/

/-- Neither a line feed nor a carriage return stands in a text. -/
def OnOneLine (text : List Char) : Prop := ∀ c ∈ text, c ≠ '\n' ∧ c ≠ '\r'

instance (text : List Char) : Decidable (OnOneLine text) :=
  decidable_of_iff (text.all (fun c => c != '\n' && c != '\r') = true) (by simp [OnOneLine])

theorem onOneLine_append {a b : List Char} : OnOneLine (a ++ b) ↔ OnOneLine a ∧ OnOneLine b := List.forall_mem_append

theorem onOneLine_cons {c : Char} {cs : List Char} : OnOneLine (c :: cs) ↔ (c ≠ '\n' ∧ c ≠ '\r') ∧ OnOneLine cs :=
  List.forall_mem_cons

/-- Line breaks are delimiters. -/
theorem onOneLine_of_not_isDelimiter {text : List Char} (h : ∀ c ∈ text, isDelimiter c = false) : OnOneLine text := by
  intro c hc
  constructor
  · rintro rfl
    cases h _ hc
  · rintro rfl
    cases h _ hc

theorem onOneLine_escapedChar (c : Char) : OnOneLine (escapedChar c) := by
  unfold escapedChar
  split
  · decide
  · decide
  · decide
  · decide
  · decide
  · next hline _ hreturn => exact List.forall_mem_singleton.2 ⟨hline, hreturn⟩

theorem onOneLine_stringText (text : String) : OnOneLine (stringText text).toList := by
  have inside : OnOneLine (text.toList.flatMap escapedChar) := by
    intro c hc
    obtain ⟨d, -, hd⟩ := List.mem_flatMap.1 hc
    exact onOneLine_escapedChar d c hd
  rw [stringText, String.toList_ofList, List.cons_append, onOneLine_cons, onOneLine_append]
  exact ⟨by decide, inside, by decide⟩

theorem Decimal.onOneLine_positional (x : Decimal) : OnOneLine x.positional := by
  have digits : ∀ c ∈ x.significantDigits, isDelimiter c = false := fun c hc =>
    isDelimiter_of_isDigit (x.isDigit_of_mem_significantDigits hc)
  have zeros (n : Nat) : ∀ c ∈ List.replicate n '0', isDelimiter c = false :=
    fun c hc => List.eq_of_mem_replicate hc ▸ by decide
  apply onOneLine_of_not_isDelimiter
  unfold positional
  dsimp only
  split
  · rw [List.forall_mem_cons, List.forall_mem_cons, List.forall_mem_append]
    exact ⟨by decide, by decide, zeros _, digits⟩
  · split
    · exact List.forall_mem_append.2 ⟨digits, zeros _⟩
    · rw [List.forall_mem_append, List.forall_mem_cons]
      exact ⟨fun c hc => digits c (List.mem_of_mem_take hc), by decide, fun c hc => digits c (List.mem_of_mem_drop hc)⟩

/-- Numbers are written on one line, also those that are infinite or none. -/
theorem onOneLine_numberText (x : Float) : OnOneLine (numberText x).toList := by
  have signed {negative : Bool} {text : String} (h : OnOneLine text.toList) :
      OnOneLine (if negative = true then "-" ++ text else text).toList := by
    cases negative with
    | false => exact h
    | true =>
      rw [if_pos rfl, String.toList_append, onOneLine_append]
      exact ⟨by decide, h⟩
  unfold numberText
  dsimp only
  split
  · decide
  · exact signed (by decide)
  · exact signed (by decide)
  · next m q _ _ => exact signed (by rw [String.toList_ofList]; exact (shortestDecimal m q).onOneLine_positional)

theorem Primitive.onOneLine_name (p : Primitive) : OnOneLine p.name.toList := by cases p <;> decide

/-! ## Names -/

/-- A word that says a symbol. -/
def IsName (name : String) : Prop := IsWord name.toList ∧ classifyWord name.toList = some (.sym name)

theorem IsName.onOneLine {name : String} (h : IsName name) : OnOneLine name.toList := onOneLine_of_not_isDelimiter h.1.2

/-- All names that parameters bind. -/
def Parameters.names (ps : Parameters) : List String := ps.required ++ ps.rest.toList

namespace Value

/-- All names in a value are words: those of symbols, and those of closures and their parameters.  The bodies of
closures count as well. -/
def Worded : Value → Prop
  | .sym name => IsName name
  | .pair _ car cdr => car.Worded ∧ cdr.Worded
  | .closure _ name params body _ => (∀ n ∈ name, IsName n) ∧ (∀ n ∈ params.names, IsName n) ∧ body.Worded
  | _ => True

theorem onOneLine_atomText {v : Value} (h : v.Worded) : OnOneLine v.atomText.toList := by
  have bracketed {front name : String} (hfront : OnOneLine front.toList) (hname : OnOneLine name.toList) :
      OnOneLine (front ++ name ++ ">").toList := by
    rw [String.toList_append, String.toList_append, onOneLine_append, onOneLine_append]
    exact ⟨⟨hfront, hname⟩, by decide⟩
  cases v with
  | nil => exact show OnOneLine "nil".toList by decide
  | bool b => cases b <;> exact show OnOneLine (String.toList _) by decide
  | num x => exact onOneLine_numberText x
  | str l text => exact onOneLine_stringText text
  | sym name => exact IsName.onOneLine h
  | pair l car cdr => exact show OnOneLine "".toList by decide
  | prim p => exact bracketed (by decide) p.onOneLine_name
  | closure l name ps body g =>
    cases name with
    | none => exact show OnOneLine "#<lambda>".toList by decide
    | some name => exact bracketed (by decide) (h.1 name rfl).onOneLine

theorem onOneLine_of_atom {v : Value} (h : v.Worded) (hwhole : v.text = v.atomText)
    (hrest : v.restText = (" . " ++ v.atomText).push ')') : OnOneLine v.text.toList ∧ OnOneLine v.restText.toList := by
  have inside := onOneLine_atomText h
  rw [hwhole, hrest, String.toList_push, String.toList_append, onOneLine_append, onOneLine_append]
  exact ⟨inside, ⟨by decide, inside⟩, by decide⟩

/-- The text of a value, and its text as what is left of a list, are built along pairs. -/
theorem Worded.onOneLine_texts {v : Value} (h : v.Worded) : OnOneLine v.text.toList ∧ OnOneLine v.restText.toList := by
  induction v with
  | pair l car cdr ihCar ihCdr =>
    have hcar := (ihCar h.1).1
    have hcdr := (ihCdr h.2).2
    rw [text_pair, restText_pair, onOneLine_cons, onOneLine_cons, onOneLine_append]
    exact ⟨⟨by decide, hcar, hcdr⟩, by decide, hcar, hcdr⟩
  | nil => exact ⟨by decide, by decide⟩
  | bool | num | str | sym | prim | closure =>
    exact onOneLine_of_atom h (by simp [text, write]) (by simp [restText, writeRest])

/-- **A value whose names are words is written on one line.** -/
theorem Worded.onOneLine {v : Value} (h : v.Worded) : OnOneLine v.text.toList := h.onOneLine_texts.1

theorem Worded.element {v x : Value} (h : v.Worded) (hx : x ∈ v.elements) : x.Worded := of_mem_elements id h hx

theorem Legible.worded {v : Value} (h : v.Legible) : v.Worded := by
  induction h with
  | sym word meaning _ => exact ⟨word, meaning⟩
  | pair _ _ _ ihCar ihCdr => exact ⟨ihCar, ihCdr⟩
  | nil | bool | num | str => trivial

end Value

/-- However it is labelled, the names in a datum are words. -/
def Datum.Worded (d : Datum) : Prop := ∀ next : Label, (d.label next).1.Worded

theorem Datum.worded_of_strings (texts : List String) : (Datum.ofList (texts.map .str)).Worded := by
  suffices h : ∀ (todo : List Datum) (tail : Datum), (∀ d ∈ todo, d.Worded) → tail.Worded → (tail.onto todo).Worded from
    h _ .nil (by simp [Datum.Worded, label, labelAfter, labelAfter.close, Value.Worded]) fun _ => trivial
  intro todo
  induction todo with
  | nil => exact fun tail _ htail => htail
  | cons d todo ih =>
    intro tail htodo htail
    rw [List.forall_mem_cons] at htodo
    refine ih (.pair d tail) htodo.2 fun next => ?_
    rw [label_pair]
    exact ⟨htodo.1 _, htail _⟩

/-- **What is read is worded.** -/
theorem Cursor.worded_of_read {c c' : Cursor} {d : Datum} (h : c.read = (c', .ok (some d))) : d.Worded :=
  fun next => (Cursor.fits_of_read h next).1.worded

/-! ## Closures -/

theorem Parameters.isName_of_ofValueAfter {v : Value} {reversed : List String} {ps : Parameters}
    (h : ofValueAfter reversed v = some ps) (hnames : ∀ n ∈ reversed, IsName n) (hv : v.Worded) :
    ∀ n ∈ ps.names, IsName n := by
  fun_induction ofValueAfter reversed v with
  | case1 reversed =>
    cases h
    simpa [names] using hnames
  | case2 reversed rest =>
    cases h
    simpa [names, or_imp, forall_and] using ⟨hnames, hv⟩
  | case3 reversed l name cdr ih => exact ih h (List.forall_mem_cons.2 ⟨hv.1, hnames⟩) hv.2
  | case4 => cases h

/-- The names of a closure are those of the form that makes it. -/
theorem ClosureForm.worded {e params body : Value} {name : Option String} (h : ClosureForm e name params body)
    (he : e.Worded) {ps : Parameters} (hps : Parameters.ofValue? params = some ps) (l : Label) (f : FrameId) :
    (Value.closure l name ps body f).Worded := by
  cases h with
  | lambda => exact ⟨nofun, Parameters.isName_of_ofValueAfter hps nofun he.2.1, he.2.2⟩
  | define => exact ⟨fun n hn => Option.some.inj hn ▸ he.2.1.1,
      Parameters.isName_of_ofValueAfter hps nofun he.2.1.2, he.2.2⟩

/-! ## The discipline -/

/-- All values that a store binds are worded. -/
def Store.Worded (s : Store) : Prop := s.Guards (fun _ _ => True) fun _ v => v.Worded

/-- Evaluation makes up no names. -/
def Discipline.worded : Discipline where
  frame _ _ := True
  value _ v := v.Worded
  code _ _ e := e.Worded
  store := Store.Worded
  closureless := False
  value_mono _ h := h
  code_mono _ h := h
  frame_of_code _ := trivial
  value_of_code h := h
  code_element h hx := h.element hx
  code_nil _ := trivial
  value_nil := trivial
  value_bool _ := trivial
  value_num _ := trivial
  value_pair := Iff.rfl
  value_closure l h hform _ hps := hform.worded h hps l _
  frame_of_closure _ := trivial
  code_body _ h hx := h.2.2.element hx
  code_enter _ h := h
  not_closure := False.elim
  store_bound hs hg hv := hs.bound _ _ _ hg hv
  store_parent _ _ _ := trivial
  store_labelled next hs := hs.labelledFrom next
  store_define name hs _ hv := hs.define _ name hv
  store_assign hs _ _ hv := hs.define _ _ hv
  store_addFrame hs hp hparent hbinds := hs.addFrame id (fun _ _ => trivial) id hp hparent hbinds

/-- At the start there are primitives and strings only. -/
theorem Interpreter.start_worded (args : List String) (limit : Nat) : (start args limit).machine.store.Worded := by
  obtain ⟨-, -, hbound⟩ :=
    Interpreter.start_spec (P := Value.Worded) (fun _ => trivial) args (Datum.worded_of_strings args 0) limit
  exact ⟨fun g name v _ hv => hbound g name v hv, fun _ _ _ _ => trivial⟩

end LispSession
