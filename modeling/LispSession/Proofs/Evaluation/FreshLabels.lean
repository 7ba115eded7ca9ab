import LispSession.Proofs.Evaluation.Completeness
import LispSession.Proofs.Evaluation.Stages
/-!
# Labels are given out in order

A store gives out labels by counting, so a new object is never mistaken for an old one as long as all labels in use are
below the count.  This is so with a new interpreter and stays so through every evaluation (`evaluate_labelled`).

Code is older than what it makes: an evaluation never makes an expression.  So all along the labels in expressions and
in the bodies of closures stay below the count that the evaluation began with, and so do those in an expression that an
error blames.
-/
namespace LispSession

/-- All labels are below `data`, and those in the bodies of closures below `code`. -/
def Value.Below (code : Label) : Label → Value → Prop
  | data, .str l _ => l < data
  | data, .pair l car cdr => l < data ∧ car.Below code data ∧ cdr.Below code data
  | data, .closure l _ _ body _ => l < data ∧ body.Below code code
  | _, _ => True

def Frame.Below (code data : Label) (fr : Frame) : Prop := ∀ b ∈ fr.bindings, b.2.Below code data

/-- All labels in use are below the next one, those in the bodies of closures even below `code`. -/
structure Store.Labelled (code : Label) (s : Store) : Prop where
  code_le : code ≤ s.nextLabel
  below : ∀ (g : FrameId) (fr : Frame), s.frames[g]? = some fr → fr.Below code s.nextLabel

/-! ## Values -/

namespace Value

variable {c c' b b' : Label} {v : Value}

theorem Below.mono (h : v.Below c b) (hc : c ≤ c') (hb : b ≤ b') : v.Below c' b' := by
  induction v generalizing b b' with
  | str l text => exact Nat.lt_of_lt_of_le h hb
  | pair l car cdr ihCar ihCdr => exact ⟨Nat.lt_of_lt_of_le h.1 hb, ihCar h.2.1 hb, ihCdr h.2.2 hb⟩
  | closure l name ps body f ih => exact ⟨Nat.lt_of_lt_of_le h.1 hb, ih h.2 hc⟩
  | _ => trivial

theorem Below.element (h : v.Below c b) : ∀ x ∈ v.elements, x.Below c b := by
  induction v with
  | pair l car cdr _ ih => exact List.forall_mem_cons.2 ⟨h.2.1, ih h.2.2⟩
  | _ => nofun

theorem Below.item {items : List Value} (h : v.Below c b) (hitems : v.toList? = some items) :
    ∀ x ∈ items, x.Below c b :=
  elements_of_toList? hitems ▸ h.element

theorem inherits_below : Inherits (Below c b) := ⟨trivial, fun _ => trivial, fun _ => trivial, And.right⟩

end Value

/-! ## Frames and stores -/

namespace Frame

variable {c b b' : Label} {fr : Frame}

theorem Below.mono (h : fr.Below c b) (hb : b ≤ b') : fr.Below c b' := fun p hp => (h p hp).mono (Nat.le_refl c) hb

theorem below_empty (parent : Option FrameId) : Below c b { parent := parent } := nofun

theorem Below.get? (h : fr.Below c b) {name : String} {v : Value} (hv : fr.get? name = some v) : v.Below c b := by
  obtain ⟨p, hp, rfl⟩ : ∃ p ∈ fr.bindings, p.2 = v := by
    unfold Frame.get? at hv
    obtain ⟨l₁, l₂, heq, -⟩ := List.lookup_eq_some_iff.1 hv
    exact ⟨(name, v), by simp [heq], rfl⟩
  exact h p hp

theorem Below.define (h : fr.Below c b) (name : String) {v : Value} (hv : v.Below c b) :
    (fr.define name v).Below c b := by
  unfold Frame.define
  split
  · intro p hp
    obtain ⟨q, hq, rfl⟩ := List.mem_map.1 hp
    split
    · exact hv
    · exact h q hq
  · exact List.forall_mem_cons.2 ⟨hv, h⟩

end Frame

namespace Store.Labelled

variable {c : Label} {s : Store}

theorem bound (h : s.Labelled c) {name : String} {g : FrameId} {v : Value} (hv : s.bound? g name = some v) :
    v.Below c s.nextLabel := by
  obtain ⟨fr, hfr, hget⟩ := Option.bind_eq_some_iff.1 hv
  exact (h.below g fr hfr).get? hget

theorem define (h : s.Labelled c) (f : FrameId) (name : String) {v : Value} (hv : v.Below c s.nextLabel) :
    (s.define f name v).Labelled c where
  code_le := h.code_le
  below g fr hfr := by
    rw [Store.frames_define] at hfr
    split at hfr
    · obtain ⟨fr', hfr', rfl⟩ := Option.map_eq_some_iff.1 hfr
      exact (h.below g fr' hfr').define name hv
    · exact h.below g fr hfr

theorem addFrame (h : s.Labelled c) {fr : Frame} (hfr : fr.Below c s.nextLabel) : (s.addFrame fr).2.Labelled c where
  code_le := h.code_le
  below g fr' hg := by
    rw [Store.frames_addFrame] at hg
    split at hg
    · cases hg
      exact hfr
    · exact h.below g fr' hg

theorem freshLabel (h : s.Labelled c) : s.freshLabel.2.Labelled c :=
  ⟨Nat.le_succ_of_le h.code_le, fun g fr hfr => (h.below g fr hfr).mono (Nat.le_succ _)⟩

end Store.Labelled

/-! ## Evaluation -/

section Evaluation

variable {α : Type} {c : Label} {s s' : Store}

/-- From one store to the other, labels are given out in order.  The outcome is as described if it is a value, and
blames an expression with labels below `c` otherwise. -/
def GivesOut (c : Label) (P : Label → α → Prop) (s : Store) (o : Except Raised α) (s' : Store) : Prop :=
  s.Labelled c → s.nextLabel ≤ s'.nextLabel ∧ s'.Labelled c ∧
    match o with
    | .ok a => P s'.nextLabel a
    | .error r => r.blame.Below c c

/-- Stages told by how many labels are given out, for code with labels below `c`. -/
def labelStages (c : Label) : Stages Label where
  leads t u := t ≤ u
  code _ e := e.Below c c
  value t v := v.Below c t
  frame t fr := fr.Below c t
  store t s := s.Labelled c ∧ s.nextLabel = t
  leads_refl := Nat.le_refl
  leads_trans := Nat.le_trans
  code_mono _ he := he
  value_mono hle hv := hv.mono (Nat.le_refl c) hle
  frame_mono hle hfr := hfr.mono hle
  code_parts he := he.2
  code_body hp := hp.2
  value_of_code hs he := he.mono (Nat.le_refl c) (hs.2 ▸ hs.1.code_le)
  value_inherits _ := Value.inherits_below
  value_sym _ _ := trivial
  frame_empty _ := Frame.below_empty
  frame_define name hfr hv := hfr.define name hv
  store_bound hs hv := hs.2 ▸ hs.1.bound hv
  store_define f name hs hv := ⟨hs.1.define f name (hs.2 ▸ hv), hs.2⟩
  store_addFrame hs hfr := ⟨hs.1.addFrame (hs.2 ▸ hfr), hs.2⟩
  make_pair hs hcar hcdr := by
    obtain ⟨hs, rfl⟩ := hs
    refine ⟨_, Nat.le_succ _, ⟨hs.freshLabel, rfl⟩, Nat.lt_succ_self _, ?_, ?_⟩
    · exact hcar.mono (Nat.le_refl c) (Nat.le_succ _)
    · exact hcdr.mono (Nat.le_refl c) (Nat.le_succ _)
  make_closure _ _ _ hs hbody := by
    obtain ⟨hs, rfl⟩ := hs
    exact ⟨_, Nat.le_succ _, ⟨hs.freshLabel, rfl⟩, Nat.lt_succ_self _, hbody⟩

/-- **Evaluation gives labels out in order.** -/
theorem Starts.givesOut {limit d : Nat} {f : FrameId} {e : Value} {o : Except Raised Value}
    (h : Starts limit d f e s o s') (he : e.Below c c) : GivesOut c (Value.Below c) s o s' := by
  intro hs
  obtain ⟨u, hle, ⟨hs', rfl⟩, ho⟩ := h.goesOn (labelStages c) s.nextLabel he ⟨hs, rfl⟩
  refine ⟨hle, hs', ?_⟩
  cases o <;> exact ho

end Evaluation

/-! ## From the start on -/

/-- All labels in use are below the next one. -/
def Store.WellLabelled (s : Store) : Prop := s.Labelled s.nextLabel

theorem Store.Labelled.wellLabelled {c : Label} {s : Store} (h : s.Labelled c) : s.WellLabelled :=
  ⟨Nat.le_refl _, fun g fr hfr b hb => (h.below g fr hfr b hb).mono h.code_le (Nat.le_refl _)⟩

/-- A datum takes the labels from `next` on. -/
theorem Datum.labelAfter_below (c : Label) (d : Datum) : ∀ (done : List (Label × Value)) (next : Label),
    (∀ p ∈ done, p.1 < next ∧ p.2.Below c next) →
      next ≤ (d.labelAfter done next).2 ∧ (d.labelAfter done next).1.Below c (d.labelAfter done next).2 := by
  have close {done : List (Label × Value)} {next : Label} (hdone : ∀ p ∈ done, p.1 < next ∧ p.2.Below c next)
      {tail : Value} (htail : tail.Below c next) : (labelAfter.close done tail).Below c next := by
    unfold labelAfter.close
    induction done generalizing tail with
    | nil => exact htail
    | cons p done ih =>
      rw [List.forall_mem_cons] at hdone
      exact ih hdone.2 ⟨hdone.1.1, hdone.1.2, htail⟩
  have weaken {done : List (Label × Value)} {next next' : Label} (hdone : ∀ p ∈ done, p.1 < next ∧ p.2.Below c next)
      (hle : next ≤ next') : ∀ p ∈ done, p.1 < next' ∧ p.2.Below c next' :=
    fun p hp => ⟨Nat.lt_of_lt_of_le (hdone p hp).1 hle, (hdone p hp).2.mono (Nat.le_refl c) hle⟩
  induction d with
  | pair car cdr ihCar ihCdr =>
    intro done next hdone
    obtain ⟨hle, hcar⟩ := ihCar [] (next + 1) nofun
    obtain ⟨hle', hcdr⟩ := ihCdr ((next, (car.labelAfter [] (next + 1)).1) :: done) (car.labelAfter [] (next + 1)).2
      (List.forall_mem_cons.2 ⟨⟨hle, hcar⟩, weaken hdone (Nat.le_of_lt hle)⟩)
    exact ⟨Nat.le_trans (Nat.le_of_lt hle) hle', hcdr⟩
  | str text => exact fun done next hdone => ⟨Nat.le_succ _, close (weaken hdone (Nat.le_succ _)) (Nat.lt_succ_self _)⟩
  | _ => exact fun done next hdone => ⟨Nat.le_refl _, close hdone trivial⟩

theorem Store.Labelled.place {c : Label} {s : Store} (h : s.Labelled c) (d : Datum) :
    (s.place d).2.Labelled c ∧ (s.place d).1.Below c (s.place d).2.nextLabel := by
  obtain ⟨hle, hbelow⟩ := d.labelAfter_below c [] s.nextLabel nofun
  exact ⟨⟨Nat.le_trans h.code_le hle, fun g fr hfr => (h.below g fr hfr).mono hle⟩, hbelow⟩

/-- **A new interpreter is well labelled.** -/
theorem Interpreter.start_wellLabelled (args : List String) (limit : Nat) :
    (start args limit).machine.store.WellLabelled := by
  have hempty : Store.Labelled 0 {} := ⟨Nat.le_refl _, nofun⟩
  obtain ⟨hplaced, hlist⟩ := hempty.place (.ofList (args.map .str))
  have hprimitives (b : Label) (ps : List Primitive) : ∀ fr : Frame, fr.Below 0 b →
      (ps.foldl (fun f p => f.define p.name (.prim p)) fr).Below 0 b := by
    induction ps with
    | nil => exact fun fr h => h
    | cons p ps ih => exact fun fr h => ih _ (h.define p.name trivial)
  exact (hplaced.addFrame ((hprimitives _ _ _ (Frame.below_empty none)).define "*args*" hlist)).wellLabelled

/-- **Evaluation keeps stores well labelled**, and hands on nothing with a label that is not given out yet. -/
theorem evaluate_labelled {limit fuel d : Nat} {f : FrameId} {e : Value} {s s' : Store} {o : Except Raised Value}
    (hs : s.WellLabelled) (he : e.Below s.nextLabel s.nextLabel)
    (h : evaluate limit fuel f e ⟨s, d⟩ = Run.ended o ⟨s', d⟩) :
    s.nextLabel ≤ s'.nextLabel ∧ s'.WellLabelled ∧
      match o with
      | .ok v => v.Below s'.nextLabel s'.nextLabel
      | .error r => r.blame.Below s.nextLabel s.nextLabel := by
  obtain ⟨hle, hs', ho⟩ := (Starts.of_ended h).givesOut he hs
  refine ⟨hle, hs'.wellLabelled, ?_⟩
  cases o with
  | ok v => exact ho.mono hle (Nat.le_refl _)
  | error r => exact ho

/-- So is whatever is evaluated from a text. -/
theorem Interpreter.evaluateIn_wellLabelled {frame : FrameId} {d : Datum} {i : Interpreter}
    (hi : i.machine.store.WellLabelled) (hdone : (i.evaluateIn frame d).2 ≠ .error .unfinished) :
    (i.evaluateIn frame d).1.machine.store.WellLabelled := by
  obtain ⟨hplaced, he⟩ := hi.place d
  obtain ⟨u, -, ⟨hs', -⟩, -⟩ :=
    evaluateIn_goesOn (labelStages _) ⟨hplaced.wellLabelled, rfl⟩ (he.mono hplaced.code_le (Nat.le_refl _)) hdone
  exact hs'.wellLabelled

end LispSession
