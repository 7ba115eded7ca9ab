import LispSession.Proofs.Printed.Words
import LispSession.Proofs.Decimal.ReadBack
/-!
# The notation of values

The values that have a notation are those without procedures, with finite numbers only, and with symbols that are words
of their own (`Printable`).  The text of such a value is one line; it is taken for `Value.lexemes`, whatever ends the
last word of it (`Printable.written`), and these lexemes denote the value in the grammar of data, with its own nesting
(`Printable.meant`).

Printing and lexing go along a list, but the grammar has its items side by side.  So each statement comes in two: one
for a value, and one for what is left of a list behind its first elements.
-/
namespace LispSession

namespace Value

/-- What a value shows when labels are dropped.  A procedure is no datum; it counts as `nil` here. -/
def content : Value → Datum
  | .bool b => .bool b
  | .num x => .num x
  | .str _ text => .str text
  | .sym name => .sym name
  | .pair _ car cdr => .pair car.content cdr.content
  | .nil | .prim _ | .closure _ _ _ _ _ => .nil

/-- How deep lists are nested, counted through the elements of a list but not along it. -/
def depth : Value → Nat
  | .pair _ car cdr => max (car.depth + 1) cdr.depth
  | _ => 0

/-- The values with a notation: built from `nil`, booleans, finite numbers, strings and symbols by pairs.  The name of a
symbol is a word that says a symbol, and not `nil`. -/
inductive Printable : Value → Prop
  | nil : Printable .nil
  | bool (b : Bool) : Printable (.bool b)
  | num {x : Float} (finite : x.isFinite = true) : Printable (.num x)
  | str (label : Label) (text : String) : Printable (.str label text)
  | sym {name : String} (word : IsWord name.toList) (meaning : classifyWord name.toList = some (.sym name))
      (ne_nil : name ≠ "nil") : Printable (.sym name)
  | pair (label : Label) {car cdr : Value} (first : Printable car) (later : Printable cdr) :
      Printable (.pair label car cdr)

/-! ## Lexemes -/

/-- The lexeme of anything but a pair. -/
def atomLexeme : Value → Lexeme
  | .bool b => .bool b
  | .num x => .num x
  | .str _ text => .str text
  | .sym name => .sym name
  | _ => .sym "nil"

mutual

/-- The lexemes of a value. -/
def lexemes : Value → List Lexeme
  | .pair _ car cdr => .openParen :: (car.lexemes ++ cdr.restLexemes)
  | v => [v.atomLexeme]

/-- The lexemes of what is left of a list. -/
def restLexemes : Value → List Lexeme
  | .nil => [.closeParen]
  | .pair _ car cdr => car.lexemes ++ cdr.restLexemes
  | tail => [.dot, tail.atomLexeme, .closeParen]

end

/-! ## Text -/

/-- The text of what is left of a list. -/
def restText (v : Value) : String := writeRest "" v

theorem text_pair (label : Label) (car cdr : Value) :
    (pair label car cdr).text.toList = '(' :: (car.text.toList ++ cdr.restText.toList) := by
  rw [text, write, write_eq, (write_and_writeRest_eq cdr _).2]
  simp [text, restText]

theorem restText_pair (label : Label) (car cdr : Value) :
    (pair label car cdr).restText.toList = ' ' :: (car.text.toList ++ cdr.restText.toList) := by
  rw [restText, writeRest, write_eq, (write_and_writeRest_eq cdr _).2]
  simp [text, restText]

end Value

/-- A text on one line that is taken for these lexemes, as soon as something ends its last word. -/
structure Written (text : List Char) (lexemes : List Lexeme) : Prop where
  oneLine : '\n' ∉ text
  starts : BeginsToken text
  ne_nil : lexemes ≠ []
  spells : ∀ more, EndsWord more → Spells text lexemes more

/-- The same of what is left of a list: it ends the word in front of it, and ends in a parenthesis. -/
structure WrittenRest (text : List Char) (lexemes : List Lexeme) : Prop where
  oneLine : '\n' ∉ text
  endsWord : ∀ more, EndsWord (text ++ more)
  spells : ∀ more, Spells text lexemes more

theorem newline_notMem_escapedChar (c : Char) : '\n' ∉ escapedChar c := by
  unfold escapedChar
  split
  · decide
  · decide
  · decide
  · decide
  · decide
  · next _ _ hne _ _ => simpa using fun h => hne h.symm

namespace Written

variable {a b : List Char} {la lb : List Lexeme}

theorem word {l : Lexeme} (hw : IsWord a) (hl : classifyWord a = some l) : Written a [l] where
  oneLine hmem := by
    have hdelimiter := hw.2 _ hmem
    revert hdelimiter
    decide
  starts := hw.starts
  ne_nil := List.cons_ne_nil _ _
  spells _ hmore := .word hw hl hmore

theorem string (text : String) : Written (stringText text).toList [.str text] where
  oneLine := by
    rw [stringText, String.toList_ofList]
    simp [newline_notMem_escapedChar]
  starts := ⟨'"', _, by rw [stringText, String.toList_ofList]; rfl, by decide, by decide⟩
  ne_nil := List.cons_ne_nil _ _
  spells _ _ := .string text

theorem list (h : Written a la) (h' : WrittenRest b lb) : Written ('(' :: (a ++ b)) (.openParen :: (la ++ lb)) where
  oneLine := by simp [h.oneLine, h'.oneLine]
  starts := ⟨'(', _, rfl, by decide, by decide⟩
  ne_nil := List.cons_ne_nil _ _
  spells more _ := Spells.openParen.append ((h.spells _ (h'.endsWord more)).append (h'.spells more))

theorem item (h : Written a la) (h' : WrittenRest b lb) : WrittenRest (' ' :: (a ++ b)) (la ++ lb) where
  oneLine := by simp [h.oneLine, h'.oneLine]
  endsWord more := by
    intro c hc
    cases hc
    decide
  spells more := ((h.spells _ (h'.endsWord more)).blank h.starts h.ne_nil).append (h'.spells more)

end Written

namespace WrittenRest

theorem close : WrittenRest [')'] [.closeParen] where
  oneLine := by decide
  endsWord more := by
    intro c hc
    cases hc
    decide
  spells _ := .closeParen

/-- The tail of a dotted list is one more word or string, behind the dot. -/
theorem tail {a : List Char} {l : Lexeme} (h : Written a [l]) :
    WrittenRest (' ' :: '.' :: ' ' :: (a ++ [')'])) [.dot, l, .closeParen] :=
  (Written.word (a := ['.']) (by decide) rfl).item (h.item close)

end WrittenRest

namespace Value

theorem written_atom {v : Value} (hpair : ∀ label car cdr, v ≠ .pair label car cdr) (hnil : v ≠ .nil)
    (h : Written v.atomText.toList [v.atomLexeme]) :
    Written v.text.toList v.lexemes ∧ WrittenRest v.restText.toList v.restLexemes := by
  have htext : v.text = v.atomText := by rw [text, write.eq_2 _ _ hpair, String.empty_append]
  have hrest : v.restText.toList = ' ' :: '.' :: ' ' :: (v.atomText.toList ++ [')']) := by
    rw [restText, writeRest.eq_3 _ _ hnil hpair]
    simp
  rw [htext, hrest, lexemes.eq_2 _ hpair, restLexemes.eq_3 _ hnil hpair]
  exact ⟨h, .tail h⟩

/-- **The text of a value is taken for its lexemes.** -/
theorem Printable.written {v : Value} (h : Printable v) :
    Written v.text.toList v.lexemes ∧ WrittenRest v.restText.toList v.restLexemes := by
  induction h with
  | nil => exact ⟨.word (by decide) rfl, .close⟩
  | bool b => exact written_atom nofun nofun (by cases b <;> exact .word (by decide) rfl)
  | num finite =>
    exact written_atom nofun nofun (.word (isDelimiter_numberText finite) (classifyWord_numberText finite))
  | str label text => exact written_atom nofun nofun (.string text)
  | sym word meaning _ => exact written_atom nofun nofun (.word word meaning)
  | pair label _ _ ihCar ihCdr =>
    rw [text_pair, restText_pair, lexemes, restLexemes]
    exact ⟨ihCar.1.list ihCdr.2, ihCar.1.item ihCdr.2⟩

/-! ## Meaning -/

/-- Behind the items of a list, the tokens close it and have this datum as its tail. -/
def ClosesWith (ts : List Token) (d : Datum) (depth : Nat) : Prop :=
  ∀ {o : Token} {ps : List Token} {ds : List Datum} {n : Nat}, o.lexeme = .openParen → DenotesAll ps ds n → ds ≠ [] →
    Denotes (o :: (ps ++ ts)) (ds.foldr .pair d) (max (n + 1) depth)

/-- The lexemes of a value denote it, with its own nesting; those of what is left of a list close the list with it. -/
def Meant (v : Value) : Prop :=
  (∀ ts : List Token, ts.map Token.lexeme = v.lexemes → Denotes ts v.content v.depth) ∧
  (∀ ts : List Token, ts.map Token.lexeme = v.restLexemes → ClosesWith ts v.content v.depth)

theorem meant_atom {v : Value} (hpair : ∀ label car cdr, v ≠ .pair label car cdr) (hnil : v ≠ .nil)
    (h : v.atomLexeme.atom? = some v.content) : v.Meant := by
  rw [Meant, lexemes.eq_2 _ hpair, restLexemes.eq_3 _ hnil hpair, depth.eq_2 _ hpair]
  refine ⟨fun ts hts => ?_, fun ts hts o ps ds n ho items hne => ?_⟩
  · obtain ⟨t, rfl, ht⟩ := List.map_eq_singleton_iff.1 hts
    exact .atom (ht ▸ h)
  · obtain ⟨dot, ts, rfl, hdot, hts⟩ := List.map_eq_cons_iff.1 hts
    obtain ⟨t, ts, rfl, ht, hts⟩ := List.map_eq_cons_iff.1 hts
    obtain ⟨c, rfl, hc⟩ := List.map_eq_singleton_iff.1 hts
    have hdotted := Denotes.dotted ho hdot hc items hne (.atom (ht ▸ h))
    rw [Nat.max_zero] at hdotted ⊢
    simpa using hdotted

/-- **The lexemes of a value denote it.** -/
theorem Printable.meant {v : Value} (h : Printable v) : v.Meant := by
  induction h with
  | nil =>
    refine ⟨fun ts hts => ?_, fun ts hts o ps ds n ho items _ => ?_⟩
    · obtain ⟨t, rfl, ht⟩ := List.map_eq_singleton_iff.1 hts
      exact .atom (ht ▸ rfl)
    · obtain ⟨c, rfl, hc⟩ := List.map_eq_singleton_iff.1 hts
      exact .list ho hc items
  | bool b => exact meant_atom nofun nofun rfl
  | num _ => exact meant_atom nofun nofun rfl
  | str label text => exact meant_atom nofun nofun rfl
  | sym _ _ ne_nil => exact meant_atom nofun nofun (by rw [atomLexeme, Lexeme.atom?, if_neg ne_nil]; rfl)
  | @pair label car cdr _ _ ihCar ihCdr =>
    refine ⟨fun ts hts => ?_, fun ts hts o ps ds n ho items _ => ?_⟩
    · obtain ⟨o, ts, rfl, ho, hts⟩ := List.map_eq_cons_iff.1 hts
      obtain ⟨p, r, rfl, hp, hr⟩ := List.map_eq_append_iff.1 hts
      have hclose := ihCdr.2 r hr ho (.cons (ihCar.1 p hp) .nil) (List.cons_ne_nil _ _)
      simpa [content, depth] using hclose
    · obtain ⟨p, r, rfl, hp, hr⟩ := List.map_eq_append_iff.1 hts
      have hclose := ihCdr.2 r hr ho (items.snoc (ihCar.1 p hp)) (by simp)
      rw [← Nat.add_max_add_right, Nat.max_assoc] at hclose
      simpa [content, depth] using hclose

end Value

end LispSession
