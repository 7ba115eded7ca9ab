import LispSession.Proofs.Evaluation.Discipline
import LispSession.Proofs.Printed.ReadBack
/-!
# Frames out of reach

From some frames others are reached: their parents, and the frames of the closures that they bind.  Evaluation starts
from its frame and from the closures in its expression, and never gets any further: what it defines or assigns is in a
frame within reach or in a new one, and what it binds there leads nowhere else.  So every other frame stays as it is,
and nothing else comes within reach (`frames_out_of_reach_are_untouched`).

Frames and closures may go round in circles, so reach is a relation on frames and not a walk; all that is ever asked of
it is that it is closed.
-/
namespace LispSession

namespace Value

/-- The frames of the closures in a value.  The bodies of closures, which are made of pairs as well, are only looked
into if `deep`. -/
def frames (deep : Bool) : Value → List FrameId
  | .pair _ car cdr => car.frames deep ++ cdr.frames deep
  | .closure _ _ _ body g => g :: if deep then body.frames deep else []
  | _ => []

/-- No closure stands in the body of a closure.  It is so with all closures of a session
(`Interpreter.evaluateIn_plainBodies`): they are made by forms, and the forms come from text. -/
def PlainBodies : Value → Prop
  | .pair _ car cdr => car.PlainBodies ∧ cdr.PlainBodies
  | .closure _ _ _ body _ => body.frames true = []
  | _ => True

variable {deep : Bool}

theorem frames_eq_of_plainBodies {v : Value} (h : v.PlainBodies) : v.frames true = v.frames false := by
  induction v with
  | pair l car cdr ihCar ihCdr => rw [frames, frames, ihCar h.1, ihCdr h.2]
  | closure l name ps body g _ =>
    rw [PlainBodies] at h
    simp [frames, h]
  | _ => rfl

theorem plainBodies_of_frames {v : Value} (h : v.frames true = []) : v.PlainBodies := by
  induction v with
  | pair l car cdr ihCar ihCdr =>
    obtain ⟨hcar, hcdr⟩ := List.append_eq_nil_iff.1 h
    exact ⟨ihCar hcar, ihCdr hcdr⟩
  | closure => cases h
  | _ => trivial

theorem frames_shallow_subset (v : Value) : v.frames false ⊆ v.frames true := by
  induction v with
  | pair l car cdr ihCar ihCdr =>
    exact List.append_subset.2 ⟨List.subset_append_of_subset_left _ ihCar, List.subset_append_of_subset_right _ ihCdr⟩
  | closure l name ps body g _ => exact List.cons_subset_cons g (List.nil_subset _)
  | _ => exact List.Subset.refl _

theorem frames_element_subset {v x : Value} (h : x ∈ v.elements) : x.frames deep ⊆ v.frames deep :=
  of_mem_elements (P := fun x => x.frames deep ⊆ v.frames deep) List.append_subset.1 (List.Subset.refl _) h

end Value

/-- Data hold no closures. -/
theorem Datum.frames_label (d : Datum) (next : Label) (deep : Bool) : (d.label next).1.frames deep = [] := by
  induction d generalizing next with
  | pair car cdr ihCar ihCdr =>
    rw [label_pair, Value.frames, ihCar, ihCdr]
    rfl
  | _ => rfl

theorem ClosureForm.frames_body_subset {e params body : Value} {name : Option String}
    (h : ClosureForm e name params body) (deep : Bool) : body.frames deep ⊆ e.frames deep := by
  cases h with
  | lambda => exact List.subset_append_of_subset_right _ (List.subset_append_right _ _)
  | define => exact List.subset_append_of_subset_right _ (List.subset_append_right _ _)

namespace Store

/-! ## Reach -/

/-- What is reached from some frames: they themselves, the parents of what is reached, and the frames of the closures
that are bound there. -/
inductive Reaches (deep : Bool) (s : Store) (roots : List FrameId) : FrameId → Prop
  | root {g : FrameId} (h : g ∈ roots) : Reaches deep s roots g
  | parent {g p : FrameId} (hg : Reaches deep s roots g) (h : s.parent? g = some p) : Reaches deep s roots p
  | bound {g : FrameId} {name : String} {v : Value} {c : FrameId} (hg : Reaches deep s roots g)
      (h : s.bound? g name = some v) (hc : c ∈ v.frames deep) : Reaches deep s roots c

variable {deep : Bool} {s : Store} {roots : List FrameId}

/-- What holds of some frames, and goes on along every link, holds of all that is reached. -/
theorem Reaches.within {P : FrameId → Prop} (hroots : ∀ g ∈ roots, P g)
    (hparent : ∀ g p, P g → s.parent? g = some p → P p)
    (hbound : ∀ g name v, P g → s.bound? g name = some v → ∀ c ∈ v.frames deep, P c) {g : FrameId}
    (h : s.Reaches deep roots g) :
    P g := by
  induction h with
  | root h => exact hroots _ h
  | parent _ h ih => exact hparent _ _ ih h
  | bound _ h hc ih => exact hbound _ _ _ ih h _ hc

theorem Reaches.deepen {roots' : List FrameId} (hroots : roots ⊆ roots') {g : FrameId} (h : s.Reaches false roots g) :
    s.Reaches true roots' g :=
  h.within (fun _ hg => .root (hroots hg)) (fun _ _ hg hp => .parent hg hp)
    fun _ _ v hg hv _ hc => .bound hg hv (v.frames_shallow_subset hc)

/-- Where no closure stands in the body of another, bodies need not be looked into. -/
theorem Reaches.surface (hplain : ∀ g name v, s.bound? g name = some v → v.PlainBodies) {g : FrameId}
    (h : s.Reaches true roots g) : s.Reaches false roots g :=
  h.within (fun _ hg => .root hg) (fun _ _ hg hp => .parent hg hp)
    fun g name v hg hv _ hc => .bound hg hv (Value.frames_eq_of_plainBodies (hplain g name v hv) ▸ hc)

/-! ## Regions -/

/-- The frames that an evaluation from some frames may come to, out of so many: those within reach at its beginning, and
new ones. -/
def Region (s : Store) (roots : List FrameId) (n : Nat) (g : FrameId) : Prop :=
  s.Reaches true roots g ∨ s.size ≤ g ∧ g < n

variable {n m : Nat} {g : FrameId}

theorem Region.mono (h : s.Region roots n g) (hle : n ≤ m) : s.Region roots m g :=
  h.imp_right fun ⟨hnew, hlt⟩ => ⟨hnew, Nat.lt_of_lt_of_le hlt hle⟩

theorem Region.of_succ (h : s.Region roots (n + 1) g) (hne : g ≠ n) : s.Region roots n g :=
  h.imp_right fun ⟨hnew, hlt⟩ => ⟨hnew, Nat.lt_of_le_of_ne (Nat.le_of_lt_succ hlt) hne⟩

theorem region_new (h : s.size ≤ n) : s.Region roots (n + 1) n := .inr ⟨h, Nat.lt_succ_self n⟩

/-- At the beginning there are no new frames. -/
theorem Region.reaches (h : s.Region roots s.size g) : s.Reaches true roots g :=
  h.elim id fun ⟨hnew, hlt⟩ => absurd hlt (Nat.not_lt.2 hnew)

end Store

/-! ## The discipline -/

/-- All frames that a value leads to are among those in question. -/
def Value.Within (frame : Nat → FrameId → Prop) (n : Nat) (v : Value) : Prop := ∀ g ∈ v.frames true, frame n g

/-- Evaluation that keeps to some frames and to values that lead to such frames only.  New frames are always among
them. -/
def Discipline.within (frame : Nat → FrameId → Prop) (store : Store → Prop)
    (mono : ∀ {n m g}, n ≤ m → frame n g → frame m g)
    (fresh : ∀ {s}, store s → frame (s.size + 1) s.size)
    (guards : ∀ {s}, store s → s.Guards frame (Value.Within frame))
    (labelled : ∀ {s} next, store s → store (s.labelledFrom next))
    (define : ∀ {s f v} name, store s → frame s.size f → v.Within frame s.size → store (s.define f name v))
    (addFrame : ∀ {s p fr}, store s → frame s.size p → fr.parent = some p → fr.Binds (Value.Within frame s.size) →
      store (s.addFrame fr).2) : Discipline where
  frame := frame
  value := Value.Within frame
  code n f e := frame n f ∧ e.Within frame n
  store := store
  closureless := False
  value_mono hle h g hg := mono hle (h g hg)
  code_mono hle h := ⟨mono hle h.1, fun g hg => mono hle (h.2 g hg)⟩
  frame_of_code h := h.1
  value_of_code h := h.2
  code_element h hx := ⟨h.1, fun g hg => h.2 g (Value.frames_element_subset hx hg)⟩
  code_nil h := ⟨h.1, nofun⟩
  value_nil := nofun
  value_bool _ := nofun
  value_num _ := nofun
  value_pair := List.forall_mem_append
  value_closure _ h hform _ _ := List.forall_mem_cons.2 ⟨h.1, fun g hg => h.2 g (hform.frames_body_subset true hg)⟩
  frame_of_closure h := h _ List.mem_cons_self
  code_body hs h hx :=
    ⟨fresh hs, fun g hg => mono (Nat.le_succ _) (h g (List.mem_cons_of_mem _ (Value.frames_element_subset hx hg)))⟩
  code_enter hs h := ⟨fresh hs, fun g hg => mono (Nat.le_succ _) (h.2 g hg)⟩
  not_closure := False.elim
  store_bound hs hg hv := (guards hs).bound _ _ _ hg hv
  store_parent hs hg hp := (guards hs).parent _ _ hg hp
  store_labelled := labelled
  store_define name hs h hv := define name hs h.1 hv
  store_assign hs hg _ hv := define _ hs hg hv
  store_addFrame := addFrame

/-- Since the first store no frame outside of the region has changed, and what is bound in the region leads nowhere
else. -/
structure Store.Confined (first : Store) (roots : List FrameId) (s : Store) : Prop where
  grows : first.size ≤ s.size
  untouched : ∀ g < first.size, ¬first.Reaches true roots g → s.frames[g]? = first.frames[g]?
  guards : s.Guards (first.Region roots) (Value.Within (first.Region roots))

namespace Store.Confined

variable {first s : Store} {roots : List FrameId}

theorem refl (s : Store) (roots : List FrameId) : s.Confined roots s where
  grows := Nat.le_refl _
  untouched _ _ _ := rfl
  guards := ⟨fun _ _ _ hg hv _ hc => .inl (.bound hg.reaches hv hc), fun _ _ hg hp => .inl (.parent hg.reaches hp)⟩

theorem define (h : Confined first roots s) {f : FrameId} (hf : first.Region roots s.size f) (name : String) {v : Value}
    (hv : v.Within (first.Region roots) s.size) : Confined first roots (s.define f name v) where
  grows := (size_define ..).symm ▸ h.grows
  untouched g hg hout := by
    have hne : f ≠ g := by
      rintro rfl
      exact hf.elim hout fun ⟨hnew, _⟩ => absurd hg (Nat.not_lt.2 hnew)
    rw [frames_define, if_neg hne]
    exact h.untouched g hg hout
  guards := h.guards.define f name hv

theorem addFrame (h : Confined first roots s) {p : FrameId} {fr : Frame} (hp : first.Region roots s.size p)
    (hparent : fr.parent = some p) (hbinds : fr.Binds (Value.Within (first.Region roots) s.size)) :
    Confined first roots (s.addFrame fr).2 where
  grows := Nat.le_trans h.grows (by rw [size_addFrame]; exact Nat.le_succ _)
  untouched g hg hout := by
    rw [frames_addFrame, if_neg (Nat.ne_of_lt (Nat.lt_of_lt_of_le hg h.grows))]
    exact h.untouched g hg hout
  guards := h.guards.addFrame (fun hg => hg.mono (Nat.le_succ _)) (fun hg hne => hg.of_succ hne)
    (fun hv g hg => (hv g hg).mono (Nat.le_succ _)) hp hparent hbinds

end Store.Confined

/-- Evaluation stays in its region. -/
def Discipline.confined (first : Store) (roots : List FrameId) : Discipline :=
  .within (first.Region roots) (Store.Confined first roots) (fun hle hg => hg.mono hle)
    (fun hs => Store.region_new hs.grows)
    (fun hs => hs.guards) (fun next hs => ⟨hs.grows, hs.untouched, hs.guards.labelledFrom next⟩)
    (fun name hs hf hv => hs.define hf name hv) fun hs hp hparent hbinds => hs.addFrame hp hparent hbinds

/-- **Evaluation is confined** to what its frame and the closures in its expression lead to. -/
theorem evaluate_confined {limit fuel d d' : Nat} {f : FrameId} {e : Value} {s s' : Store} {o : Except Raised Value}
    (h : evaluate limit fuel f e ⟨s, d⟩ = Run.ended o ⟨s', d'⟩) :
    s.Confined (f :: e.frames true) s' ∧ (handedOn o).Within (s.Region (f :: e.frames true)) s'.size := by
  have begins : (Discipline.confined s (f :: e.frames true)).code s.size f e :=
    ⟨.inl (.root List.mem_cons_self), fun _ hg => .inl (.root (List.mem_cons_of_mem _ hg))⟩
  exact ((Discipline.confined _ _).evaluate_ended (.refl s _) begins False.elim h).2

/-! ## Sessions -/

/-- No closure that a store binds has a closure in its body. -/
def Store.PlainBodies (s : Store) : Prop := s.Guards (fun _ _ => True) fun _ v => v.PlainBodies

/-- Expressions without closures make closures with plain bodies, and these bodies are again such expressions. -/
def Discipline.plainBodies : Discipline where
  frame _ _ := True
  value _ v := v.PlainBodies
  code _ _ e := e.frames true = []
  store := Store.PlainBodies
  closureless := False
  value_mono _ h := h
  code_mono _ h := h
  frame_of_code _ := trivial
  value_of_code h := Value.plainBodies_of_frames h
  code_element h hx := List.subset_nil.1 (h ▸ Value.frames_element_subset hx)
  code_nil _ := rfl
  value_nil := trivial
  value_bool _ := trivial
  value_num _ := trivial
  value_pair := Iff.rfl
  value_closure _ h hform _ _ := List.subset_nil.1 (h ▸ hform.frames_body_subset true)
  frame_of_closure _ := trivial
  code_body _ h hx := List.subset_nil.1 (h ▸ Value.frames_element_subset hx)
  code_enter _ h := h
  not_closure := False.elim
  store_bound hs hg hv := hs.bound _ _ _ hg hv
  store_parent _ _ _ := trivial
  store_labelled next hs := hs.labelledFrom next
  store_define name hs _ hv := hs.define _ name hv
  store_assign hs _ _ hv := hs.define _ _ hv
  store_addFrame hs hp hparent hbinds := hs.addFrame id (fun _ _ => trivial) id hp hparent hbinds

namespace Interpreter

/-- At the start there are no closures. -/
theorem start_plainBodies (args : List String) (limit : Nat) : (start args limit).machine.store.PlainBodies := by
  obtain ⟨-, -, hbound⟩ := start_spec (P := Value.PlainBodies) (fun _ => trivial) args
    (Value.plainBodies_of_frames (Datum.frames_label _ 0 true)) limit
  exact ⟨fun g name v _ hv => hbound g name v hv, fun _ _ _ _ => trivial⟩

/-- From then on all bodies stay plain, whatever is evaluated. -/
theorem evaluateIn_plainBodies (i : Interpreter) (f : FrameId) (d : Datum) (hs : i.machine.store.PlainBodies) :
    (i.evaluateIn f d).1.machine.store.PlainBodies := by
  obtain ⟨r, s', heq, -, hs', -⟩ := Discipline.plainBodies.evaluateIn_keeps id i f d hs (d.frames_label _ true)
  rw [heq]
  exact hs'

/-- **In a session a frame out of reach is untouched**, where bodies need not be looked into for what is in reach: a
datum that is evaluated in a frame changes no other frame than those that this one leads to. -/
theorem evaluateIn_untouched (i : Interpreter) (f : FrameId) (d : Datum)
    (hs : i.machine.store.PlainBodies) {g : FrameId} (hg : g < i.machine.store.size)
    (hout : ¬i.machine.store.Reaches false [f] g) :
    (i.evaluateIn f d).1.machine.store.frames[g]? = i.machine.store.frames[g]? := by
  have begins : (Discipline.confined i.machine.store [f]).code i.machine.store.size f (i.machine.store.place d).1 := by
    refine ⟨.inl (.root List.mem_cons_self), fun c hc => ?_⟩
    rw [show (i.machine.store.place d).1.frames true = [] from d.frames_label _ true] at hc
    cases hc
  obtain ⟨r, s', heq, -, hconfined, -⟩ :=
    (Discipline.confined i.machine.store [f]).evaluateIn_keeps id i f d (.refl _ _) begins
  rw [heq]
  exact hconfined.untouched g hg fun hin => hout (hin.surface fun g name v hv => hs.bound g name v trivial hv)

end Interpreter

/-- **Frames out of reach are untouched.**  Whatever an evaluation comes to, a frame that was there before and is not
reached from the frame of the evaluation or from a closure in the expression is the same as before; and whatever is
reached afterwards, from that frame and from the value or the expression to blame, was within reach before or is new.
So a variable that only a closure holds on to can only be changed through that closure.

Reach goes through the parents of frames, what they bind, the components of pairs and the frames of closures; and
through the bodies of closures, unless no closure stands in one. -/
theorem frames_out_of_reach_are_untouched {limit fuel d d' : Nat} {f : FrameId} {e : Value} {s s' : Store}
    {o : Except Raised Value} (h : evaluate limit fuel f e ⟨s, d⟩ = Run.ended o ⟨s', d'⟩) (deep : Bool)
    (hplain : deep = false → e.PlainBodies ∧ ∀ g name v, s.bound? g name = some v → v.PlainBodies) :
    (∀ g < s.size, ¬s.Reaches deep (f :: e.frames deep) g → s'.frames[g]? = s.frames[g]?) ∧
    (∀ g, s'.Reaches deep (f :: (handedOn o).frames deep) g →
      s.Reaches deep (f :: e.frames deep) g ∨ s.size ≤ g ∧ g < s'.size) := by
  obtain ⟨confined, handed⟩ := evaluate_confined h
  have reached {g : FrameId} (hg : s'.Reaches true (f :: (handedOn o).frames true) g) :
      s.Region (f :: e.frames true) s'.size g :=
    hg.within (List.forall_mem_cons.2 ⟨.inl (.root List.mem_cons_self), handed⟩) confined.guards.parent
      confined.guards.bound
  cases deep with
  | true => exact ⟨confined.untouched, fun g hg => reached hg⟩
  | false =>
    obtain ⟨he, hbound⟩ := hplain rfl
    have same : e.frames true = e.frames false := Value.frames_eq_of_plainBodies he
    rw [same] at confined reached
    refine ⟨fun g hg hout => confined.untouched g hg fun hin => hout (hin.surface hbound), fun g hg => ?_⟩
    have hdeep := hg.deepen (List.cons_subset_cons f (handedOn o).frames_shallow_subset)
    exact (reached hdeep).imp_left fun hin => hin.surface hbound

/-- `(set! x #f)` in frame 0 reaches that frame only.  It leaves alone frame 1, which only a closure holds on to, and
frame 2, where that closure is bound. -/
theorem assignment_leaves_captured_frame :
    let form (items : List Value) : Value := items.foldr (.pair 0) .nil
    let e := form [.sym "set!", .sym "x", .bool false]
    let bump : Value := .closure 1 (some "bump") ⟨[], none⟩ (form [form [.sym "set!", .sym "n", .bool false]]) 1
    let store (x : Bool) : Store := { frames := #[{ bindings := [("x", .bool x)] },
      { bindings := [("n", .bool true)], parent := some 0 }, { bindings := [("bump", bump)], parent := some 0 }] }
    evaluate 2 2 0 e ⟨store true, 0⟩ = Run.ended (.ok (.bool false)) ⟨store false, 0⟩ ∧
    (∀ g < 3, g ≠ 0 → ¬(store true).Reaches false [0] g ∧ (store false).frames[g]? = (store true).frames[g]?) ∧
    ∀ g, (store false).Reaches false [0] g → (store true).Reaches false [0] g ∨ 3 ≤ g ∧ g < 3 := by
  intro form e bump store
  have run : evaluate 2 2 0 e ⟨store true, 0⟩ = Run.ended (.ok (.bool false)) ⟨store false, 0⟩ := by
    with_unfolding_all rfl
  have only {n name : String} {v w : Value} (h : [(n, w)].lookup name = some v) : v = w := by
    rw [List.lookup_cons] at h
    split at h <;> cases h
    rfl
  have plain : ∀ g name v, (store true).bound? g name = some v → v.PlainBodies := by
    intro g name v hv
    match g with
    | 0 => exact only (n := "x") hv ▸ trivial
    | 1 => exact only (n := "n") hv ▸ trivial
    | 2 => exact only (n := "bump") (w := bump) hv ▸ rfl
    | g + 3 => cases hv
  have alone (g : FrameId) (hg : (store true).Reaches false [0] g) : g = 0 := by
    refine hg.within (P := fun g => g = 0) (by simp) ?_ ?_
    · rintro g p rfl hp
      cases hp
    · rintro g name v rfl hv
      rw [only (n := "x") (w := .bool true) hv]
      nofun
  obtain ⟨untouched, reached⟩ :=
    frames_out_of_reach_are_untouched run false fun _ => ⟨⟨trivial, trivial, trivial, trivial⟩, plain⟩
  exact ⟨run, fun g hg hne => ⟨fun hin => hne (alone g hin), untouched g hg fun hin => hne (alone g hin)⟩, reached⟩

end LispSession
