import LispSession.Proofs.Decimal.Bits
import LispSession.Proofs.Evaluation.Soundness
/-!
# Two kinds of equality

`isSame` tells objects apart by their labels.  `isEqual` compares content, but takes a pair to be equal to itself
without a look into it.  Both speak of objects, so a label has to stand for one object wherever it comes up: this is
what it means for values to live in one memory (`Value.LivesIn`), as all do that come up in an evaluation
(`evaluate_inOneMemory`).  Pairs may be shared within values and between them in any way.

Then both are symmetric and transitive, and the first one implies the second (`sameness_refines_equality`).  The look
that is not taken makes a difference for one number only, the one that does not equal itself
(`shared_pair_shows_by_nan_only`).
-/
namespace LispSession

/-- Objects, each in the place that its label says. -/
abbrev Memory := List Value

namespace Value

/-- A value made of the objects of a memory.  What has a label is the object in that place, wherever the value has it in
it. -/
def LivesIn (m : Memory) : Value → Prop
  | .str l text => m[l]? = some (.str l text)
  | .pair l car cdr => m[l]? = some (.pair l car cdr) ∧ car.LivesIn m ∧ cdr.LivesIn m
  | .closure l name ps body f => m[l]? = some (.closure l name ps body f) ∧ body.LivesIn m
  | _ => True

/-- Whether two values have equal content, found out by taking both apart down to the atoms. -/
def isAlike : Value → Value → Bool
  | .nil, .nil => true
  | .bool a, .bool b => a == b
  | .num a, .num b => a == b
  | .str _ a, .str _ b => a == b
  | .sym a, .sym b => a == b
  | .pair _ car cdr, .pair _ car' cdr' => car.isAlike car' && cdr.isAlike cdr'
  | .prim p, .prim p' => p == p'
  | .closure l _ _ _ _, .closure l' _ _ _ _ => l == l'
  | _, _ => false

/-- Whether NaN stands in a value. -/
def hasNaN : Value → Bool
  | .num x => x.isNaN
  | .pair _ car cdr => car.hasNaN || cdr.hasNaN
  | _ => false

/-- A value, and all that its pairs are made of. -/
def parts : Value → List Value
  | .pair l car cdr => .pair l car cdr :: (car.parts ++ cdr.parts)
  | v => [v]

theorem mem_parts (v : Value) : v ∈ v.parts := by cases v <;> exact List.mem_cons_self

section Pairs

variable {m : Memory} {l l' : Label} {car cdr car' cdr' : Value}

/-- Under one label there is one pair. -/
theorem LivesIn.pair_inj (h : (Value.pair l car cdr).LivesIn m) (h' : (Value.pair l car' cdr').LivesIn m) :
    Value.pair l car cdr = .pair l car' cdr' := Option.some.inj (h.1.symm.trans h'.1)

theorem isEqual_pair : (Value.pair l car cdr).isEqual (.pair l' car' cdr') = true ↔
    l = l' ∨ car.isEqual car' = true ∧ cdr.isEqual cdr' = true := by
  rw [isEqual]
  by_cases hl : l = l'
  · simp [hl]
  · simp [hl]

theorem isAlike_pair : (Value.pair l car cdr).isAlike (.pair l' car' cdr') = true ↔
    car.isAlike car' = true ∧ cdr.isAlike cdr' = true := Bool.and_eq_true_iff

theorem hasNaN_pair : (Value.pair l car cdr).hasNaN = false ↔ car.hasNaN = false ∧ cdr.hasNaN = false :=
  Bool.or_eq_false_iff

end Pairs

/-! ## A value and itself -/

variable {m : Memory} {a b c : Value}

theorem isSame_self_eq (a : Value) : a.isSame a = a.isEqual a := by cases a <;> simp [isSame, isEqual]

/-- NaN is the only value that does not equal itself. -/
theorem isEqual_self : a.isEqual a = true ↔ a ≠ .num Float.nan := by
  cases a with
  | num x => exact Float.beq_self_iff.trans (not_congr ⟨congrArg _, Value.num.inj⟩)
  | _ => simp [isEqual]

theorem isAlike_self (h : a.hasNaN = false) : a.isAlike a = true := by
  induction a with
  | num x =>
    rw [hasNaN, Float.isNaN_eq_decide_eq_nan, decide_eq_false_iff_not] at h
    exact Float.beq_self_iff.2 h
  | pair l car cdr ihCar ihCdr =>
    obtain ⟨hcar, hcdr⟩ := hasNaN_pair.1 h
    exact isAlike_pair.2 ⟨ihCar hcar, ihCdr hcdr⟩
  | _ => simp [isAlike]

/-! ## Symmetry and transitivity -/

theorem isEqual_comm (a b : Value) : a.isEqual b = b.isEqual a := by
  induction a generalizing b with
  | pair l car cdr ihCar ihCdr =>
    cases b with
    | pair l' car' cdr' => rw [Bool.eq_iff_iff, isEqual_pair, isEqual_pair, ihCar, ihCdr, eq_comm]
    | _ => rfl
  | _ => cases b <;> first | exact BEq.comm | rfl

theorem isSame_comm (a b : Value) : a.isSame b = b.isSame a := by
  have hequal := isEqual_comm a b
  cases a <;> cases b <;> first | exact BEq.comm | exact hequal

/-- Atoms are compared within their kind. -/
theorem isEqual_trans_of_atom (hatom : a.kind ≠ .pair) (hab : a.isEqual b = true) (hbc : b.isEqual c = true) :
    a.isEqual c = true := by
  cases a with
  | nil =>
    cases b with
    | nil => exact hbc
    | _ => cases hab
  | bool x =>
    cases b with
    | bool y => rwa [beq_iff_eq.1 hab]
    | _ => cases hab
  | sym name =>
    cases b with
    | sym name' => rwa [beq_iff_eq.1 hab]
    | _ => cases hab
  | prim p =>
    cases b with
    | prim p' => rwa [beq_iff_eq.1 hab]
    | _ => cases hab
  | num x =>
    cases b with
    | num y =>
      cases c with
      | num z => exact BEq.trans hab hbc
      | _ => cases hbc
    | _ => cases hab
  | str l text =>
    cases b with
    | str l' text' =>
      cases c with
      | str l'' text'' => exact BEq.trans hab hbc
      | _ => cases hbc
    | _ => cases hab
  | closure l name ps body f =>
    cases b with
    | closure l' name' ps' body' f' =>
      cases c with
      | closure l'' name'' ps'' body'' f'' => exact BEq.trans hab hbc
      | _ => cases hbc
    | _ => cases hab
  | pair l car cdr => exact absurd rfl hatom

/-- **Equality is transitive**, also where one of two links holds by identity and the other by content. -/
theorem isEqual_trans (ha : a.LivesIn m) (hb : b.LivesIn m) (hc : c.LivesIn m) (hab : a.isEqual b = true)
    (hbc : b.isEqual c = true) :
    a.isEqual c = true := by
  induction a generalizing b c with
  | pair l car cdr ihCar ihCdr =>
    cases b with
    | pair l' car' cdr' =>
      cases c with
      | pair l'' car'' cdr'' =>
        obtain rfl | ⟨hcar, hcdr⟩ := isEqual_pair.1 hab
        · rwa [ha.pair_inj hb]
        obtain rfl | ⟨hcar', hcdr'⟩ := isEqual_pair.1 hbc
        · rwa [← hb.pair_inj hc]
        · exact isEqual_pair.2 (.inr ⟨ihCar ha.2.1 hb.2.1 hc.2.1 hcar hcar', ihCdr ha.2.2 hb.2.2 hc.2.2 hcdr hcdr'⟩)
      | _ => cases hbc
    | _ => cases hab
  | _ => exact isEqual_trans_of_atom nofun hab hbc

/-- **What is the same** is one object, or an atom that is compared by content. -/
theorem eq_or_atom_of_isSame (ha : a.LivesIn m) (hb : b.LivesIn m) (h : a.isSame b = true) :
    a = b ∨ ∀ v, a.isSame v = a.isEqual v := by
  cases a with
  | pair l car cdr =>
    cases b with
    | pair l' car' cdr' =>
      obtain rfl := beq_iff_eq.1 h
      exact .inl (ha.pair_inj hb)
    | _ => cases h
  | str l text =>
    cases b with
    | str l' text' =>
      obtain rfl := beq_iff_eq.1 h
      exact .inl (Option.some.inj (ha.symm.trans hb))
    | _ => cases h
  | closure l name ps body f =>
    cases b with
    | closure l' name' ps' body' f' =>
      obtain rfl := beq_iff_eq.1 h
      exact .inl (Option.some.inj (ha.1.symm.trans hb.1))
    | _ => cases h
  | _ => exact .inr fun _ => rfl

theorem isEqual_of_isSame (ha : a.LivesIn m) (hb : b.LivesIn m) (h : a.isSame b = true) : a.isEqual b = true := by
  obtain rfl | hatom := eq_or_atom_of_isSame ha hb h
  · rwa [← isSame_self_eq]
  · rwa [← hatom]

theorem isSame_trans (ha : a.LivesIn m) (hb : b.LivesIn m) (hc : c.LivesIn m) (hab : a.isSame b = true)
    (hbc : b.isSame c = true) :
    a.isSame c = true := by
  obtain rfl | hatom := eq_or_atom_of_isSame ha hb hab
  · exact hbc
  · rw [hatom]
    exact isEqual_trans ha hb hc (isEqual_of_isSame ha hb hab) (isEqual_of_isSame hb hc hbc)

/-! ## Content -/

theorem hasNaN_of_isAlike (h : a.isAlike b = true) : a.hasNaN = false := by
  induction a generalizing b with
  | num x =>
    cases b with
    | num y =>
      rw [hasNaN, Float.isNaN_eq_decide_eq_nan, decide_eq_false_iff_not]
      exact (Float.beq_iff_ne_nan_and_eq.1 h).1
    | _ => cases h
  | pair l car cdr ihCar ihCdr =>
    cases b with
    | pair l' car' cdr' =>
      obtain ⟨hcar, hcdr⟩ := isAlike_pair.1 h
      exact hasNaN_pair.2 ⟨ihCar hcar, ihCdr hcdr⟩
    | _ => cases h
  | _ => rfl

/-- What is alike is equal: a pair that both values share makes no difference. -/
theorem isEqual_of_isAlike (h : a.isAlike b = true) : a.isEqual b = true := by
  induction a generalizing b with
  | pair l car cdr ihCar ihCdr =>
    cases b with
    | pair l' car' cdr' =>
      obtain ⟨hcar, hcdr⟩ := isAlike_pair.1 h
      exact isEqual_pair.2 (.inr ⟨ihCar hcar, ihCdr hcdr⟩)
    | _ => cases h
  | _ => cases b <;> exact h

theorem isAlike_of_isEqual (ha : a.LivesIn m) (hb : b.LivesIn m) (h : a.isEqual b = true) (hnan : a.hasNaN = false) :
    a.isAlike b = true := by
  induction a generalizing b with
  | pair l car cdr ihCar ihCdr =>
    cases b with
    | pair l' car' cdr' =>
      obtain ⟨hcar, hcdr⟩ := hasNaN_pair.1 hnan
      obtain rfl | hparts := isEqual_pair.1 h
      · rw [← ha.pair_inj hb]
        exact isAlike_self hnan
      · exact isAlike_pair.2 ⟨ihCar ha.2.1 hb.2.1 hparts.1 hcar, ihCdr ha.2.2 hb.2.2 hparts.2 hcdr⟩
    | _ => cases h
  | _ => cases b <;> exact h

/-- Of equal values that have NaN in them, both have it in a pair that they share. -/
theorem shared_of_isEqual (ha : a.LivesIn m) (hb : b.LivesIn m) (h : a.isEqual b = true) (hnan : a.hasNaN = true) :
    ∃ p, p ∈ a.parts ∧ p ∈ b.parts ∧ p.kind = .pair ∧ p.hasNaN = true := by
  induction a generalizing b with
  | num x =>
    cases b with
    | num y =>
      rw [hasNaN, Float.isNaN_eq_decide_eq_nan, decide_eq_true_iff] at hnan
      exact absurd hnan (Float.beq_iff_ne_nan_and_eq.1 h).1
    | _ => cases h
  | pair l car cdr ihCar ihCdr =>
    cases b with
    | pair l' car' cdr' =>
      obtain rfl | hparts := isEqual_pair.1 h
      · exact ⟨_, mem_parts _, ha.pair_inj hb ▸ mem_parts _, rfl, hnan⟩
      rw [parts, parts]
      obtain hcar | hcdr := Bool.or_eq_true_iff.1 hnan
      · obtain ⟨p, hp, hp', hshared⟩ := ihCar ha.2.1 hb.2.1 hparts.1 hcar
        exact ⟨p, by simp [hp], by simp [hp'], hshared⟩
      · obtain ⟨p, hp, hp', hshared⟩ := ihCdr ha.2.2 hb.2.2 hparts.2 hcdr
        exact ⟨p, by simp [hp], by simp [hp'], hshared⟩
    | _ => cases h
  | _ => cases hnan

end Value

/-! ## The two equalities -/

open Value

/-- **That a pair is equal to itself without a look into it shows by NaN only.**  Equality is what the comparison down
to the atoms says, but for a NaN that stands in a pair which both values share: where it says that they are alike, they
are equal, and where they are equal it says so unless there is NaN in them.  So two pairs are equal exactly when both
their components are, or else they are one pair that has NaN for a component. -/
theorem shared_pair_shows_by_nan_only {m : Memory} {a b : Value} (ha : a.LivesIn m) (hb : b.LivesIn m) :
    a.isAlike b = (a.isEqual b && !a.hasNaN) ∧
    ((∀ p ∈ a.parts, p ∈ b.parts → p.kind = .pair → p.hasNaN = false) →
      a.isEqual b = a.isAlike b ∧ Primitive.equal.call [a, b] = .value (.bool (a.isAlike b))) ∧
    ∀ l car cdr l' car' cdr', a = .pair l car cdr → b = .pair l' car' cdr' →
      (l = l' → car ≠ .num Float.nan ∧ cdr ≠ .num Float.nan) →
      (a.isEqual b = true ↔ car.isEqual car' = true ∧ cdr.isEqual cdr' = true) := by
  have halike : a.isAlike b = (a.isEqual b && !a.hasNaN) := by
    rw [Bool.eq_iff_iff, Bool.and_eq_true_iff, Bool.not_eq_true']
    exact ⟨fun h => ⟨isEqual_of_isAlike h, hasNaN_of_isAlike h⟩, fun h => isAlike_of_isEqual ha hb h.1 h.2⟩
  refine ⟨halike, fun hshared => ?_, ?_⟩
  · have hequal : a.isEqual b = a.isAlike b := by
      cases h : a.isEqual b with
      | false => rw [halike, h, Bool.false_and]
      | true =>
        refine (isAlike_of_isEqual ha hb h (Bool.eq_false_iff.2 fun hnan => ?_)).symm
        obtain ⟨p, hp, hp', hkind, hpnan⟩ := shared_of_isEqual ha hb h hnan
        exact absurd hpnan (Bool.eq_false_iff.1 (hshared p hp hp' hkind))
    exact ⟨hequal, hequal ▸ rfl⟩
  · rintro l car cdr l' car' cdr' rfl rfl hnan
    refine isEqual_pair.trans ⟨?_, .inr⟩
    rintro (rfl | hparts)
    · cases ha.pair_inj hb
      exact ⟨isEqual_self.2 (hnan rfl).1, isEqual_self.2 (hnan rfl).2⟩
    · exact hparts

/-- Two lists that begin with equal strings and share the rest. -/
theorem lists_with_one_rest_are_alike :
    let rest : Value := .pair 0 (.num 1) .nil
    let a : Value := .pair 2 (.str 1 "x") rest
    let b : Value := .pair 4 (.str 3 "x") rest
    let m : Memory := [rest, .str 1 "x", a, .str 3 "x", b]
    a.LivesIn m ∧ b.LivesIn m ∧ (∀ p ∈ a.parts, p ∈ b.parts → p.kind = .pair → p.hasNaN = false) ∧
    Primitive.equal.call [a, b] = .value (.bool (a.isAlike b)) := by
  intro rest a b m
  have ha : a.LivesIn m := ⟨rfl, rfl, rfl, trivial, trivial⟩
  have hb : b.LivesIn m := ⟨rfl, rfl, rfl, trivial, trivial⟩
  have hfree : ∀ p ∈ a.parts, p ∈ b.parts → p.kind = .pair → p.hasNaN = false := by
    intro p hp _ _
    simp only [a, rest, parts, List.cons_append, List.nil_append, List.mem_cons, List.not_mem_nil, or_false] at hp
    obtain rfl | rfl | rfl | rfl | rfl := hp <;> decide
  exact ⟨ha, hb, hfree, ((shared_pair_shows_by_nan_only ha hb).2.1 hfree).2⟩

/-- With what `(- ∞ ∞)` comes to for `n`, `(let ((x (list n))) (equal? x x))` comes to true.  A comparison down to the
atoms says no, and the first element of the list does not equal itself. -/
theorem list_of_nan_equals_itself :
    let form (items : List Value) : Value := items.foldr (.pair 0) .nil
    let x : Value := .pair 1 (.num Float.nan) .nil
    let e := form [.sym "let", form [form [.sym "x", form [.sym "list", .sym "n"]]],
      form [.sym "equal?", .sym "x", .sym "x"]]
    let outer : Frame := { bindings := [("n", .num Float.nan), ("list", .prim .list), ("equal?", .prim .equal)] }
    let inner : Frame := { bindings := [("x", x)], parent := some 0 }
    Primitive.subtract.call [.num Float.inf, .num Float.inf] = .value (.num Float.nan) ∧
    evaluate 9 9 0 e ⟨{ frames := #[outer], nextLabel := 1 }, 0⟩ =
      Run.ended (.ok (.bool true)) ⟨{ frames := #[outer, inner], nextLabel := 2 }, 0⟩ ∧
    x.LivesIn [.nil, x] ∧ x.isEqual x = true ∧ x.isAlike x = false ∧
    (Value.num Float.nan).isEqual (.num Float.nan) = false := by
  intro form x e outer inner
  exact ⟨rfl, by with_unfolding_all rfl, ⟨rfl, trivial, trivial⟩, rfl, by decide, by decide⟩

/-- **Sameness refines equality, and both are symmetric and transitive**, with pairs, strings and closures shared in any
way.  Every value is the same as itself but for NaN; so are all pairs, strings, symbols, truth values, primitives and
closures, and `nil`. -/
theorem sameness_refines_equality {m : Memory} {a b c : Value} (ha : a.LivesIn m) (hb : b.LivesIn m)
    (hc : c.LivesIn m) :
    (a.isSame b = true → a.isEqual b = true) ∧
    a.isEqual b = b.isEqual a ∧ a.isSame b = b.isSame a ∧
    (a.isEqual b = true → b.isEqual c = true → a.isEqual c = true) ∧
    (a.isSame b = true → b.isSame c = true → a.isSame c = true) ∧
    (a.isSame a = true ↔ a ≠ .num Float.nan) :=
  ⟨isEqual_of_isSame ha hb, isEqual_comm a b, isSame_comm a b, isEqual_trans ha hb hc, isSame_trans ha hb hc,
    (congrArg (· = true) a.isSame_self_eq).to_iff.trans isEqual_self⟩

/-- A list, the list itself and a copy of it: one link holds by identity, though there is NaN in the list, and the other
by content. -/
theorem list_is_itself_and_equals_copy :
    let rest : Value := .pair 0 (.num Float.nan) .nil
    let a : Value := .pair 2 (.str 1 "x") rest
    let copy : Value := .pair 4 (.str 3 "x") rest
    let m : Memory := [rest, .str 1 "x", a, .str 3 "x", copy]
    a.LivesIn m ∧ copy.LivesIn m ∧ a.isSame a = true ∧ a.isEqual copy = true ∧ a.isSame copy = false ∧
    copy.isEqual a = true := by
  intro rest a copy m
  have ha : a.LivesIn m := ⟨rfl, rfl, rfl, trivial, trivial⟩
  have hcopy : copy.LivesIn m := ⟨rfl, rfl, rfl, trivial, trivial⟩
  obtain ⟨hrefines, hcomm, -, htrans, -, hself⟩ := sameness_refines_equality ha ha hcopy
  obtain ⟨-, hcomm', -⟩ := sameness_refines_equality ha hcopy ha
  have hsame : a.isSame a = true := hself.2 nofun
  have hequal : a.isEqual copy = true := htrans (hrefines hsame) rfl
  exact ⟨ha, hcopy, hsame, hequal, rfl, hcomm' ▸ hequal⟩

end LispSession
