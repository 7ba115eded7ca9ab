import LispSession.Proofs.Evaluation.Reach
import LispSession.Proofs.Printed.Legible
/-!
# Programs without closures

A program that makes no closures, in an environment that holds none, never calls one: every expression that is evaluated
on its behalf is part of its own text.  Such a part is an element of a list, so it is nested less deep, whatever the
form it is a part of.  So the nesting of the program bounds the levels of its evaluation as well as its rounds, and a
limit above the nesting is never reached (`closureless_programs_stay_within_the_limit`).  Data may be nested 256 deep
when they are read, and evaluation 400 deep; so this is so of all that is read.
-/
namespace LispSession

/-! ## Programs that make no closures -/

namespace Datum

/-- `(define (..) ..)` -/
def isProcedureDefinition : Datum → Bool
  | .pair (.sym head) (.pair (.pair _ _) _) => head == "define"
  | _ => false

/-- Whether a procedure is defined in a datum, be it the datum itself or an element of a list in it.  What is left of a
list behind its first elements is no form. -/
def definesProcedure (behind : Bool) : Datum → Bool
  | .pair car cdr =>
    !behind && isProcedureDefinition (.pair car cdr) || car.definesProcedure false || cdr.definesProcedure true
  | _ => false

/-- Neither `lambda` nor `(define (..) ..)` stands in it. -/
structure MakesNoClosures (d : Datum) : Prop where
  noLambda : d.mentions "lambda" = false
  noDefinition : d.definesProcedure false = false

end Datum

namespace Value

/-- No closure stands in a value. -/
def Closureless (v : Value) : Prop := v.frames true = []

theorem definesProcedure_element {v x : Value} {behind : Bool} (h : v.content.definesProcedure behind = false)
    (hx : x ∈ v.elements) : x.content.definesProcedure false = false := by
  induction v generalizing behind with
  | pair l car cdr _ ih =>
    rw [content, Datum.definesProcedure, Bool.or_eq_false_iff, Bool.or_eq_false_iff] at h
    rw [elements] at hx
    obtain rfl | hx := List.mem_cons.1 hx
    · exact h.1.2
    · exact ih h.2 hx
  | _ => cases hx

theorem Closureless.element {v x : Value} (h : v.Closureless) (hx : x ∈ v.elements) : x.Closureless :=
  List.subset_nil.1 (h ▸ frames_element_subset hx)

theorem closureless_pair {l : Label} {car cdr : Value} :
    (pair l car cdr).Closureless ↔ car.Closureless ∧ cdr.Closureless := List.append_eq_nil_iff

end Value

/-- A form that makes a closure is one of those that a program without closures does not have. -/
theorem ClosureForm.not_makesNoClosures {e params body : Value} {name : Option String}
    (h : ClosureForm e name params body) :
    ¬e.content.MakesNoClosures := by
  rintro ⟨hlambda, hdefine⟩
  cases h with
  | lambda => cases hlambda
  | define => cases hdefine

/-! ## The discipline -/

/-- No frame within reach binds a value with a closure in it. -/
def Store.BindsNoClosures (s : Store) (f : FrameId) : Prop :=
  ∀ g, s.Reaches true [f] g → ∀ name v, s.bound? g name = some v → v.Closureless

/-- Closures are neither made nor held in the region of an evaluation. -/
def Discipline.noClosures (first : Store) (f : FrameId) : Discipline where
  frame := first.Region [f]
  value _ v := v.Closureless
  code n g e := first.Region [f] n g ∧ e.Closureless ∧ e.content.MakesNoClosures
  store s := first.size ≤ s.size ∧ s.Guards (first.Region [f]) fun _ v => v.Closureless
  closureless := True
  value_mono _ h := h
  code_mono hle h := ⟨h.1.mono hle, h.2⟩
  frame_of_code h := h.1
  value_of_code h := h.2.1
  code_element h hx := ⟨h.1, h.2.1.element hx,
    Value.mentions_element h.2.2.noLambda hx, Value.definesProcedure_element h.2.2.noDefinition hx⟩
  code_nil h := ⟨h.1, rfl, rfl, rfl⟩
  value_nil := rfl
  value_bool _ := rfl
  value_num _ := rfl
  value_pair := Value.closureless_pair
  value_closure _ h hform _ _ := absurd h.2.2 hform.not_makesNoClosures
  frame_of_closure h := absurd h (List.cons_ne_nil _ _)
  code_body _ h _ := absurd h (List.cons_ne_nil _ _)
  code_enter hs h := ⟨Store.region_new hs.1, h.2⟩
  not_closure _ := List.cons_ne_nil _ _
  store_bound hs hg hv := hs.2.bound _ _ _ hg hv
  store_parent hs hg hp := hs.2.parent _ _ hg hp
  store_labelled next hs := ⟨hs.1, hs.2.labelledFrom next⟩
  store_define name hs _ hv := ⟨(Store.size_define ..).symm ▸ hs.1, hs.2.define _ name hv⟩
  store_assign hs _ _ hv := ⟨(Store.size_define ..).symm ▸ hs.1, hs.2.define _ _ hv⟩
  store_addFrame hs hp hparent hbinds :=
    ⟨Nat.le_trans hs.1 (by rw [Store.size_addFrame]; exact Nat.le_succ _),
      hs.2.addFrame (fun hg => hg.mono (Nat.le_succ _)) (fun hg hne => hg.of_succ hne) id hp hparent hbinds⟩

namespace Store.BindsNoClosures

variable {s s' : Store} {f : FrameId}

/-- At the beginning the region is what is within reach. -/
theorem guards (h : s.BindsNoClosures f) : s.Guards (s.Region [f]) fun _ v => v.Closureless :=
  ⟨fun g name v hg hv => h g hg.reaches name v hv, fun _ _ hg hp => .inl (.parent hg.reaches hp)⟩

theorem of_guards (h : s'.Guards (s.Region [f]) fun _ v => v.Closureless) : s'.BindsNoClosures f := by
  intro g hg name v hv
  refine h.bound g name v (hg.within ?_ h.parent fun g name v hg hv c hc => ?_) hv
  · exact List.forall_mem_singleton.2 (.inl (.root List.mem_cons_self))
  · have hnone : v.frames true = [] := h.bound g name v hg hv
    rw [hnone] at hc
    cases hc

/-- Labels lead nowhere. -/
theorem labelledFrom (h : s.BindsNoClosures f) (next : Label) : (s.labelledFrom next).BindsNoClosures f := fun g hg =>
  h g (hg.within (fun _ hroot => .root hroot) (fun _ _ hg hp => .parent hg hp) fun _ _ _ hg hv _ hc => .bound hg hv hc)

end Store.BindsNoClosures

/-! ## Coming to an end -/

/-- With whatever fuel evaluation comes to an end, it comes to the same end. -/
theorem evaluate_unique {limit fuel fuel' d : Nat} {f : FrameId} {e : Value} {s s₁ s₂ : Store}
    {o₁ o₂ : Except Raised Value} (h₁ : evaluate limit fuel f e ⟨s, d⟩ = Run.ended o₁ ⟨s₁, d⟩)
    (h₂ : evaluate limit fuel' f e ⟨s, d⟩ = Run.ended o₂ ⟨s₂, d⟩) :
    o₁ = o₂ ∧ s₁ = s₂ := (Starts.of_ended h₁).unique (.of_ended h₂)

/-- An outcome other than going over a limit, without a closure in it. -/
def EndsWithinLimit : Except Raised Value → Prop
  | .ok v => v.Closureless
  | .error r => ∀ k, r.error ≠ .recursionLimit k

/-- **Without closures, evaluation ends within a limit above the nesting of the expression**, given fuel above it. -/
theorem evaluate_closureless {n limit fuel : Nat} {f : FrameId} {e : Value} {s : Store} (hdepth : e.depth ≤ n)
    (hplain : e.Closureless) (hforms : e.content.MakesNoClosures) (hframes : s.BindsNoClosures f)
    (hlimit : n + 1 ≤ limit) (hfuel : n < fuel) :
    ∃ o s', evaluate limit fuel f e ⟨s, 0⟩ = Run.ended o ⟨s', 0⟩ ∧ EndsWithinLimit o ∧ s'.BindsNoClosures f := by
  have keeps : (Discipline.noClosures s f).Keeps 0 s (evaluate limit fuel f e) (Discipline.noClosures s f).value :=
    (Discipline.noClosures s f).evaluate_keeps ⟨Nat.le_refl _, hframes.guards⟩
      ⟨.inl (.root List.mem_cons_self), hplain, hforms⟩ fun _ => by omega
  obtain ⟨r, s', hr, -, ⟨-, hguards⟩, hmeets⟩ := keeps
  have hframes' := Store.BindsNoClosures.of_guards hguards
  match r, hmeets with
  | .ok v, hv => exact ⟨.ok v, s', hr, hv, hframes'⟩
  | .error (.raised raised), ⟨_, hwithin⟩ => exact ⟨.error raised, s', hr, hwithin trivial, hframes'⟩
  | .error .unfinished, hopen => exact absurd trivial hopen

/-- The primitives and the arguments of a script hold no closures. -/
theorem Interpreter.start_bindsNoClosures (args : List String) (limit : Nat) :
    (start args limit).machine.store.BindsNoClosures (start args limit).globals := by
  obtain ⟨-, -, hbound⟩ :=
    Interpreter.start_spec (P := Value.Closureless) (fun _ => rfl) args (Datum.frames_label _ _ true) limit
  exact fun g _ => hbound g

/-- **A program without closures never reaches the limit on nesting.**  Let an expression be nested at most `n` deep,
hold no closure, neither the symbol `lambda` nor a form `(define (..) ..)`, and let no frame within reach bind a
closure.  Evaluation that starts at depth 0, under a limit of `n + 1` at least, comes to an end, the same with all fuel
that is more than `n`; it does not go over the limit, and the frames within reach still bind no closure.

So it is, under the limit that is set unless another is asked for, with every datum that is read and evaluated in
globals that bind no closure, as they do at the start. -/
theorem closureless_programs_stay_within_the_limit :
    (∀ (n limit : Nat) (f : FrameId) (e : Value) (s : Store), e.depth ≤ n → e.Closureless → e.content.MakesNoClosures →
      s.BindsNoClosures f → n + 1 ≤ limit →
      ∃ o s', (∀ fuel > n, evaluate limit fuel f e ⟨s, 0⟩ = Run.ended o ⟨s', 0⟩) ∧ EndsWithinLimit o ∧
        s'.BindsNoClosures f) ∧
    (∀ (c c' : Cursor) (d : Datum) (s : Store) (globals : FrameId), c.read = (c', .ok (some d)) → d.MakesNoClosures →
      s.BindsNoClosures globals →
      ∃ o s', Interpreter.evaluate ⟨⟨s, 0⟩, globals, defaultDepthLimit⟩ d =
          (⟨⟨s', 0⟩, globals, defaultDepthLimit⟩, o.mapError .raised) ∧
        EndsWithinLimit o ∧ s'.BindsNoClosures globals) ∧
    ∀ (args : List String) (limit : Nat),
      (Interpreter.start args limit).machine.store.BindsNoClosures (Interpreter.start args limit).globals := by
  refine ⟨fun n limit f e s hdepth hplain hforms hframes hlimit => ?_, fun c c' d s globals hread hforms hframes => ?_,
    Interpreter.start_bindsNoClosures⟩
  · obtain ⟨o, s', hrun, hends, hframes'⟩ :=
      evaluate_closureless hdepth hplain hforms hframes hlimit (Nat.lt_succ_self n)
    refine ⟨o, s', fun fuel hfuel => ?_, hends, hframes'⟩
    obtain ⟨o', s'', hrun', -, -⟩ := evaluate_closureless hdepth hplain hforms hframes hlimit hfuel
    obtain ⟨rfl, rfl⟩ := evaluate_unique hrun' hrun
    exact hrun'
  · have hdepth : (s.place d).1.depth ≤ nestingLimit := (Cursor.fits_of_read hread s.nextLabel).2
    have hplain : (s.place d).1.Closureless := d.frames_label s.nextLabel true
    have hforms' : (s.place d).1.content.MakesNoClosures := (d.content_label s.nextLabel).symm ▸ hforms
    obtain ⟨o, s', hrun, hends, hframes'⟩ :=
      evaluate_closureless hdepth hplain hforms' (hframes.labelledFrom (d.label s.nextLabel).2)
        (show nestingLimit + 1 ≤ defaultDepthLimit by decide) (show nestingLimit < evaluationFuel by decide)
    rw [Run.ended_eq_back] at hrun
    exact ⟨o, s', Interpreter.evaluateIn_of_back (i := ⟨⟨s, 0⟩, globals, defaultDepthLimit⟩) hrun, hends, hframes'⟩

/-- `(define y (not (set! x #f)))` is nested three deep.  It needs four levels, and goes over a limit of three.  It may
be read as well, and evaluated at the start. -/
theorem nested_definition_takes_one_level_more :
    let form (items : List Value) : Value := items.foldr (.pair 0) .nil
    let e := form [.sym "define", .sym "y", form [.sym "not", form [.sym "set!", .sym "x", .bool false]]]
    let s : Store := { frames := #[{ bindings := [("x", .bool true), ("not", .prim .not)] }] }
    (e.depth ≤ 3 ∧ e.Closureless ∧ e.content.MakesNoClosures ∧ s.BindsNoClosures 0 ∧
      ∃ o s', (∀ fuel > 3, evaluate 4 fuel 0 e ⟨s, 0⟩ = Run.ended o ⟨s', 0⟩) ∧ EndsWithinLimit o ∧
        s'.BindsNoClosures 0) ∧
    evaluate 3 4 0 e ⟨s, 0⟩ = Run.ended (.error ⟨.recursionLimit 3, .bool false⟩) ⟨s, 0⟩ ∧
    ∃ c d o i, (Cursor.start (.code "(define y (not (set! x #f)))")).read = (c, .ok (some d)) ∧ d = e.content ∧
      (Interpreter.start [] defaultDepthLimit).evaluate d = (i, o.mapError .raised) ∧ EndsWithinLimit o := by
  intro form e s
  have hforms : e.content.MakesNoClosures := ⟨by decide, by decide⟩
  have hframes : s.BindsNoClosures 0 := by
    intro g _ name v hv
    match g with
    | 0 =>
      change [("x", Value.bool true), ("not", .prim .not)].lookup name = some v at hv
      rw [List.lookup_cons] at hv
      split at hv
      · cases hv
        rfl
      · rw [List.lookup_cons] at hv
        split at hv <;> cases hv
        rfl
    | g + 1 => cases hv
  obtain ⟨within, ofRead, atStart⟩ := closureless_programs_stay_within_the_limit
  have read : ∃ c, (Cursor.start (.code "(define y (not (set! x #f)))")).read = (c, .ok (some e.content)) :=
    ⟨_, by with_unfolding_all rfl⟩
  obtain ⟨c, hread⟩ := read
  obtain ⟨o, s', heval, hends, -⟩ := ofRead _ c e.content _ _ hread hforms (atStart [] defaultDepthLimit)
  exact ⟨⟨by decide, rfl, hforms, hframes, within 3 4 0 e s (by decide) rfl hforms hframes (by decide)⟩,
    by with_unfolding_all rfl, c, _, o, _, hread, rfl, heval, hends⟩

end LispSession
