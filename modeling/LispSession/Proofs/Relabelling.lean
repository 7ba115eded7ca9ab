import LispSession.Proofs.Frames
/-!
# Other labels

Labels tell objects apart and do nothing else.  A relabelling gives other labels to all objects, different ones to
different objects, and goes on counting where new objects are labelled.  Whatever looks at values or at a store then
sees the same: this module says so of lists, texts, equality, parameters, frames, stores and primitives.
-/
namespace LispSession

/-- New labels for old ones: different ones for different ones.  From `bound` on they are counted as the old ones
are. -/
structure Relabelling where
  new : Label → Label
  injective : Function.Injective new
  bound : Label
  succ : ∀ l, bound ≤ l → new (l + 1) = new l + 1

/-! ## Relabelling what evaluation handles -/

/-- The same value with new labels. -/
def Value.relabel (ρ : Relabelling) : Value → Value
  | .str l text => .str (ρ.new l) text
  | .pair l car cdr => .pair (ρ.new l) (car.relabel ρ) (cdr.relabel ρ)
  | .closure l name params body frame => .closure (ρ.new l) name params (body.relabel ρ) frame
  | .nil => .nil
  | .bool b => .bool b
  | .num x => .num x
  | .sym name => .sym name
  | .prim p => .prim p

def Frame.relabel (ρ : Relabelling) (f : Frame) : Frame :=
  { f with bindings := f.bindings.map fun b => (b.1, b.2.relabel ρ) }

def Store.relabel (ρ : Relabelling) (s : Store) : Store := ⟨s.frames.map (Frame.relabel ρ), ρ.new s.nextLabel⟩

def Machine.relabel (ρ : Relabelling) (m : Machine) : Machine := ⟨m.store.relabel ρ, m.depth⟩

def Raised.relabel (ρ : Relabelling) (r : Raised) : Raised := ⟨r.error, r.blame.relabel ρ⟩

def Halt.relabel (ρ : Relabelling) : Halt → Halt
  | .raised r => .raised (r.relabel ρ)
  | .stuck => .stuck
  | .unfinished => .unfinished

def Next.relabel (ρ : Relabelling) : Next → Next
  | .value v => .value (v.relabel ρ)
  | .tail f e => .tail f (e.relabel ρ)

def Answer.relabel (ρ : Relabelling) : Answer → Answer
  | .value v => .value (v.relabel ρ)
  | .chain items tail => .chain (items.map (Value.relabel ρ)) (tail.relabel ρ)
  | .failure error => .failure error
  | .stuck => .stuck

variable {ρ : Relabelling}

theorem Relabelling.beq (l l' : Label) : (ρ.new l == ρ.new l') = (l == l') := by
  rw [Bool.eq_iff_iff, beq_iff_eq, beq_iff_eq, ρ.injective.eq_iff]

/-! ## Values -/

namespace Value

@[simp] theorem kind_relabel (v : Value) : (v.relabel ρ).kind = v.kind := by cases v <;> rfl

@[simp] theorem isTruthy_relabel (v : Value) : (v.relabel ρ).isTruthy = v.isTruthy := by cases v <;> rfl

@[simp] theorem symbol?_relabel (v : Value) : (v.relabel ρ).symbol? = v.symbol? := by cases v <;> rfl

theorem toList?_relabel (v : Value) : (v.relabel ρ).toList? = v.toList?.map (List.map (relabel ρ)) := by
  induction v with
  | pair l car cdr _ ih =>
    rw [relabel, toList?_pair, toList?_pair, ih, Option.map_map, Option.map_map]
    rfl
  | _ => rfl

theorem elements_relabel (v : Value) : (v.relabel ρ).elements = v.elements.map (relabel ρ) := by
  induction v with
  | pair l car cdr _ ih => rw [relabel, elements, elements, ih, List.map_cons]
  | _ => rfl

theorem isEqual_relabel (v w : Value) : (v.relabel ρ).isEqual (w.relabel ρ) = v.isEqual w := by
  induction v generalizing w with
  | pair l car cdr ihCar ihCdr =>
    cases w with
    | pair l' car' cdr' => simp only [relabel, isEqual, Relabelling.beq, ihCar, ihCdr]
    | _ => rfl
  | closure l name ps body f =>
    cases w with
    | closure l' name' ps' body' f' => exact Relabelling.beq l l'
    | _ => rfl
  | _ => cases w <;> rfl

theorem isSame_relabel (v w : Value) : (v.relabel ρ).isSame (w.relabel ρ) = v.isSame w := by
  have hequal := isEqual_relabel (ρ := ρ) v w
  cases v <;> cases w <;> first | exact Relabelling.beq _ _ | exact hequal

theorem write_relabel (v : Value) : ∀ out : String,
    write out (v.relabel ρ) = write out v ∧ writeRest out (v.relabel ρ) = writeRest out v := by
  induction v with
  | pair l car cdr ihCar ihCdr =>
    intro out
    constructor
    · rw [relabel, write, write, (ihCar _).1, (ihCdr _).2]
    · rw [relabel, writeRest, writeRest, (ihCar _).1, (ihCdr _).2]
  | closure l name ps body f => cases name <;> exact fun out => ⟨rfl, rfl⟩
  | _ => exact fun out => ⟨rfl, rfl⟩

theorem text_relabel (v : Value) : (v.relabel ρ).text = v.text := (write_relabel v "").1

end Value

theorem headForm?_relabel (head : Value) : headForm? (head.relabel ρ) = headForm? head := by
  rw [headForm?, headForm?, Value.symbol?_relabel]

theorem Parameters.ofValueAfter_relabel (reversed : List String) (v : Value) :
    ofValueAfter reversed (v.relabel ρ) = ofValueAfter reversed v := by
  induction v generalizing reversed with
  | pair l car cdr _ ih =>
    cases car with
    | sym name => exact ih (name :: reversed)
    | _ => rfl
  | _ => rfl

theorem Parameters.check_relabel (params body : Value) :
    Parameters.check (params.relabel ρ) (body.relabel ρ) = Parameters.check params body := by
  rw [check, check, ofValue?, ofValueAfter_relabel, Value.elements_relabel, List.isEmpty_map, ofValue?]

/-! ## Stores -/

namespace Frame

theorem get?_relabel (f : Frame) (name : String) : (f.relabel ρ).get? name = (f.get? name).map (Value.relabel ρ) := by
  unfold get? relabel
  induction f.bindings with
  | nil => rfl
  | cons b later ih =>
    rw [List.map_cons, List.lookup_cons, List.lookup_cons]
    split
    · rfl
    · exact ih

theorem define_relabel (f : Frame) (name : String) (v : Value) :
    (f.define name v).relabel ρ = (f.relabel ρ).define name (v.relabel ρ) := by
  have hany : (f.relabel ρ).bindings.any (·.1 == name) = f.bindings.any (·.1 == name) := List.any_map
  unfold define
  rw [hany]
  split
  · simp only [relabel, List.map_map, Frame.mk.injEq, and_true]
    refine List.map_congr_left fun b _ => ?_
    dsimp only [Function.comp_apply]
    split <;> rfl
  · rfl

theorem defineAll_relabel (pairs : List (String × Value)) (f : Frame) :
    (pairs.foldl (fun f (name, v) => f.define name v) f).relabel ρ =
      (pairs.map fun b => (b.1, b.2.relabel ρ)).foldl (fun f (name, v) => f.define name v) (f.relabel ρ) := by
  induction pairs generalizing f with
  | nil => rfl
  | cons b later ih => rw [List.map_cons, List.foldl_cons, List.foldl_cons, ih, define_relabel]

end Frame

namespace Store

variable (s : Store)

theorem frames_relabel (g : FrameId) : (s.relabel ρ).frames[g]? = s.frames[g]?.map (Frame.relabel ρ) :=
  Array.getElem?_map

theorem bound?_relabel (g : FrameId) (name : String) :
    (s.relabel ρ).bound? g name = (s.bound? g name).map (Value.relabel ρ) := by
  unfold bound?
  rw [frames_relabel, Option.bind_map, Option.map_bind]
  exact Option.bind_congr fun fr _ => fr.get?_relabel name

theorem parent?_relabel (g : FrameId) : (s.relabel ρ).parent? g = s.parent? g := by
  unfold parent?
  rw [frames_relabel, Option.bind_map]
  rfl

theorem resolve_relabel (name : String) (g : FrameId) :
    (s.relabel ρ).resolve name g = (s.resolve name g).map fun found => (found.1, found.2.relabel ρ) := by
  induction g using Nat.strongRecOn with
  | ind g ih =>
    rw [resolve_eq, resolve_eq s, bound?_relabel, parent?_relabel]
    cases s.bound? g name with
    | some v => rfl
    | none =>
      cases s.parent? g with
      | none => rfl
      | some p =>
        dsimp only [Option.map_none]
        split
        · next hlt => exact ih p hlt
        · rfl

theorem lookup_relabel (g : FrameId) (name : String) :
    (s.relabel ρ).lookup g name = (s.lookup g name).map (Value.relabel ρ) := by
  rw [lookup, lookup, resolve_relabel, Option.map_map, Option.map_map]
  rfl

theorem define_relabel (g : FrameId) (name : String) (v : Value) :
    (s.define g name v).relabel ρ = (s.relabel ρ).define g name (v.relabel ρ) := by
  unfold define relabel
  congr 1
  refine Array.ext_getElem? fun i => ?_
  rw [Array.getElem?_map, Array.getElem?_modify, Array.getElem?_modify, Array.getElem?_map]
  split
  · rw [Option.map_map, Option.map_map]
    exact Option.map_congr fun fr _ => fr.define_relabel name v
  · rfl

theorem addFrame_relabel (f : Frame) :
    (s.relabel ρ).addFrame (f.relabel ρ) = ((s.addFrame f).1, (s.addFrame f).2.relabel ρ) := by
  simp only [addFrame, relabel, Array.size_map, Array.map_push]

variable {s} (hs : ρ.bound ≤ s.nextLabel)

include hs in
theorem freshLabel_relabel : (s.relabel ρ).freshLabel = (ρ.new s.freshLabel.1, s.freshLabel.2.relabel ρ) := by
  simp only [freshLabel, relabel, ρ.succ s.nextLabel hs]

theorem chain_relabel (items : List Value) (tail : Value) (hs : ρ.bound ≤ s.nextLabel) :
    (s.relabel ρ).chain (items.map (Value.relabel ρ)) (tail.relabel ρ) =
      ((s.chain items tail).1.relabel ρ, (s.chain items tail).2.relabel ρ) ∧
      ρ.bound ≤ (s.chain items tail).2.nextLabel := by
  unfold chain
  rw [← List.map_reverse]
  induction items.reverse generalizing s tail with
  | nil => exact ⟨rfl, hs⟩
  | cons v later ih =>
    rw [List.map_cons, List.foldl_cons, List.foldl_cons]
    dsimp only
    rw [freshLabel_relabel hs]
    exact ih (.pair s.freshLabel.1 v tail) (Nat.le_succ_of_le hs)

include hs in
theorem bind_relabel (params : Parameters) (args : List Value) (parent : FrameId) :
    (s.relabel ρ).bind params (args.map (Value.relabel ρ)) parent =
      ((s.bind params args parent).1, (s.bind params args parent).2.relabel ρ) ∧
    ρ.bound ≤ (s.bind params args parent).2.nextLabel := by
  have hzip : params.required.zip (args.map (Value.relabel ρ)) =
      (params.required.zip args).map fun b => (b.1, b.2.relabel ρ) := List.zip_map_right
  have hframe := Frame.defineAll_relabel (ρ := ρ) (params.required.zip args) { parent := some parent }
  unfold bind
  rw [hzip]
  cases params.rest with
  | none =>
    refine ⟨?_, hs⟩
    dsimp only
    rw [← addFrame_relabel, hframe]
    rfl
  | some rest =>
    obtain ⟨hchain, hnext⟩ := chain_relabel (args.drop params.required.length) .nil hs
    refine ⟨?_, hnext⟩
    rw [List.map_drop, Value.relabel] at hchain
    dsimp only
    rw [hchain, ← addFrame_relabel, Frame.define_relabel, hframe]
    rfl

end Store

/-! ## Primitives -/

namespace Primitive

@[simp] theorem number_relabel (p : Primitive) (v : Value) : p.number (v.relabel ρ) = p.number v := by cases v <;> rfl

theorem numbers_relabel (p : Primitive) (args : List Value) :
    p.numbers (args.map (Value.relabel ρ)) = p.numbers args := by
  unfold numbers
  induction args with
  | nil => rfl
  | cons v vs ih => rw [List.map_cons, List.mapM_cons, List.mapM_cons, number_relabel, ih]

theorem divideBy_relabel (vs : List Value) (quotient : Float) :
    divideBy quotient (vs.map (Value.relabel ρ)) = divideBy quotient vs := by
  induction vs generalizing quotient with
  | nil => rfl
  | cons v vs ih => simp only [List.map_cons, divideBy, number_relabel, ih]

theorem relabel_ofNumber (x : Except EvalError Float) : (Answer.ofNumber x).relabel ρ = .ofNumber x := by
  cases x <;> rfl

theorem relabel_ofTruth (x : Except EvalError Bool) : (Answer.ofTruth x).relabel ρ = .ofTruth x := by cases x <;> rfl

theorem compare_relabel (p : Primitive) (holds : Float → Float → Bool) (args : List Value) :
    p.compare holds (args.map (Value.relabel ρ)) = (p.compare holds args).relabel ρ := by
  rw [compare, compare, numbers_relabel, relabel_ofTruth]

theorem test_relabel {holds : Value → Bool} (h : ∀ v : Value, holds (v.relabel ρ) = holds v) (args : List Value) :
    test holds (args.map (Value.relabel ρ)) = (test holds args).relabel ρ := by
  cases args with
  | nil => rfl
  | cons v vs => rw [List.map_cons, test, test, h]; rfl

theorem component_relabel (p : Primitive) (pick : Value → Value → Value)
    (h : ∀ v w : Value, pick (v.relabel ρ) (w.relabel ρ) = (pick v w).relabel ρ) (args : List Value) :
    p.component pick (args.map (Value.relabel ρ)) = (p.component pick args).relabel ρ := by
  rcases args with _ | ⟨v, vs⟩
  · rfl
  · cases v with
    | pair l front back => exact congrArg Answer.value (h front back)
    | _ => rfl

theorem plainText_relabel (v : Value) : plainText (v.relabel ρ) = plainText v := by
  cases v with
  | pair l car cdr => exact Value.text_relabel (.pair l car cdr)
  | closure l name ps body f => exact Value.text_relabel (.closure l name ps body f)
  | _ => rfl

theorem run_relabel (p : Primitive) (args : List Value) :
    p.run (args.map (Value.relabel ρ)) = (p.run args).relabel ρ := by
  cases p with
  | add | multiply => simp only [run, numbers_relabel, relabel_ofNumber]
  | subtract =>
    rcases args with _ | ⟨v, _ | ⟨w, vs⟩⟩
    · rfl
    · simp only [List.map_cons, List.map_nil, run, number_relabel, relabel_ofNumber]
    · have hnumbers := numbers_relabel (ρ := ρ) .subtract (w :: vs)
      rw [List.map_cons] at hnumbers
      simp only [List.map_cons, run, number_relabel, hnumbers, relabel_ofNumber]
  | divide =>
    rcases args with _ | ⟨v, _ | ⟨w, vs⟩⟩
    · rfl
    · have hdivide := divideBy_relabel (ρ := ρ) [v] 1
      simp only [List.map_cons, List.map_nil] at hdivide
      simp only [List.map_cons, List.map_nil, run, hdivide, relabel_ofNumber]
    · have hdivide := divideBy_relabel (ρ := ρ) (w :: vs)
      simp only [List.map_cons] at hdivide
      simp only [List.map_cons, run, number_relabel, hdivide, relabel_ofNumber]
  | equals | less | greater | lessOrEqual | greaterOrEqual => exact compare_relabel _ _ args
  | cons =>
    rcases args with _ | ⟨v, _ | ⟨w, vs⟩⟩ <;> rfl
  | car => exact component_relabel .car (fun front _ => front) (fun _ _ => rfl) args
  | cdr => exact component_relabel .cdr (fun _ back => back) (fun _ _ => rfl) args
  | list => rfl
  | isNull | isPair | isNumber | isSymbol | isString | isProcedure =>
    exact test_relabel (fun v => by rw [Value.kind_relabel]) args
  | not => exact test_relabel (fun v => by rw [Value.isTruthy_relabel]) args
  | same =>
    rcases args with _ | ⟨v, _ | ⟨w, vs⟩⟩
    · rfl
    · rfl
    · exact congrArg (Answer.value ∘ Value.bool) (Value.isSame_relabel v w)
  | equal =>
    rcases args with _ | ⟨v, _ | ⟨w, vs⟩⟩
    · rfl
    · rfl
    · exact congrArg (Answer.value ∘ Value.bool) (Value.isEqual_relabel v w)
  | error =>
    have hplain : plainText ∘ Value.relabel ρ = plainText := funext plainText_relabel
    simp only [run, List.map_map, Answer.relabel, hplain]

theorem call_relabel (p : Primitive) (args : List Value) :
    p.call (args.map (Value.relabel ρ)) = (p.call args).relabel ρ := by
  rw [call, call, List.length_map]
  split
  · exact run_relabel p args
  · rfl

end Primitive

end LispSession
