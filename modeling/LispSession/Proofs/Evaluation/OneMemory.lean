import LispSession.Proofs.Equality
import LispSession.Proofs.Evaluation.Completeness
import LispSession.Proofs.Evaluation.Stages
import LispSession.Proofs.Printed.ReadBack
/-!
# One memory

A label is given out once, so it stands for one object.  If all that frames bind is made of the objects of one memory,
and the next label is that of its next object, then evaluation adds objects to the memory and changes none, and whatever
comes up is made of them (`evaluate_inOneMemory`).  A new interpreter is like that (`Interpreter.start_inOneMemory`),
and stays so whatever it evaluates (`Interpreter.evaluateIn_inOneMemory`).
-/
namespace LispSession

/-- All values that frames bind are made of the objects of a memory, and the next label is that of its next object. -/
structure Store.KeptIn (s : Store) (m : Memory) : Prop where
  next : s.nextLabel = m.length
  bound : ∀ g name v, s.bound? g name = some v → v.LivesIn m

/-! ## Values -/

namespace Value

variable {m m' : Memory} {v : Value}

/-- Objects that are added change nothing. -/
theorem LivesIn.mono (hm : m <+: m') (h : v.LivesIn m) : v.LivesIn m' := by
  have keep {l : Label} {w : Value} (hw : m[l]? = some w) : m'[l]? = some w := by
    obtain ⟨hlt, rfl⟩ := List.getElem?_eq_some_iff.1 hw
    exact List.prefix_iff_getElem?.1 hm l hlt
  induction v with
  | str l text => exact keep h
  | pair l car cdr ihCar ihCdr => exact ⟨keep h.1, ihCar h.2.1, ihCdr h.2.2⟩
  | closure l name ps body f ih => exact ⟨keep h.1, ih h.2⟩
  | _ => trivial

theorem inherits_livesIn : Inherits (LivesIn m) := ⟨trivial, fun _ => trivial, fun _ => trivial, And.right⟩

end Value

/-- A datum adds its pairs and its strings, a pair before what is in it. -/
theorem Datum.label_livesIn (d : Datum) : ∀ m : Memory,
    ∃ m', m <+: m' ∧ (d.label m.length).2 = m'.length ∧ (d.label m.length).1.LivesIn m' := by
  induction d with
  | pair car cdr ihCar ihCdr =>
    intro m
    have hnext : ((pair car cdr).label m.length).2 = (cdr.label (car.label (m.length + 1)).2).2 := by
      rw [label, labelAfter]
      dsimp only
      rw [labelAfter_eq]
      rfl
    generalize hv : ((pair car cdr).label m.length).1 = v
    obtain ⟨m₁, hm₁, hn₁, hcar⟩ := ihCar (m ++ [v])
    obtain ⟨m₂, hm₂, hn₂, hcdr⟩ := ihCdr m₁
    rw [List.length_append, List.length_singleton] at hn₁ hcar
    rw [← hn₁] at hn₂ hcdr
    have hm : m ++ [v] <+: m₂ := hm₁.trans hm₂
    have hplace : m₂[m.length]? = some v := by
      rw [List.prefix_iff_getElem?.1 hm m.length (by simp)]
      simp
    rw [label_pair] at hv
    refine ⟨m₂, (List.prefix_append m [v]).trans hm, hnext.trans hn₂, ?_⟩
    subst hv
    exact ⟨hplace, hcar.mono hm₂, hcdr⟩
  | str text =>
    intro m
    have hplace : (m ++ [.str m.length text])[m.length]? = some (.str m.length text) := List.getElem?_concat_length
    refine ⟨_, List.prefix_append .., ?_, hplace⟩
    rw [List.length_append]
    rfl
  | _ => exact fun m => ⟨m, List.prefix_refl m, rfl, trivial⟩

/-! ## Stores -/

namespace Store.KeptIn

variable {s : Store} {m m' : Memory} {v : Value}

theorem define (h : s.KeptIn m) (f : FrameId) (name : String) (hv : v.LivesIn m) : (s.define f name v).KeptIn m where
  next := h.next
  bound g other w hw := by
    rw [bound?_define] at hw
    split at hw
    · cases hw
      exact hv
    · exact h.bound g other w hw

theorem addFrame (h : s.KeptIn m) {fr : Frame} (hfr : fr.Binds (Value.LivesIn m)) : (s.addFrame fr).2.KeptIn m where
  next := h.next
  bound g name v hv := by
    rw [bound?_addFrame] at hv
    split at hv
    · exact hfr name v hv
    · exact h.bound g name v hv

/-- The next object takes the next label. -/
theorem freshLabel (h : s.KeptIn m) (v : Value) :
    m <+: m ++ [v] ∧ s.freshLabel.2.KeptIn (m ++ [v]) ∧ (m ++ [v])[s.nextLabel]? = some v := by
  have hm : m <+: m ++ [v] := List.prefix_append ..
  refine ⟨hm, ⟨?_, fun g name w hw => (h.bound g name w hw).mono hm⟩, ?_⟩
  · rw [List.length_append, List.length_singleton, ← h.next]
    rfl
  · rw [h.next, List.getElem?_concat_length]

theorem place (h : s.KeptIn m) (d : Datum) : ∃ m', m <+: m' ∧ (s.place d).2.KeptIn m' ∧ (s.place d).1.LivesIn m' := by
  obtain ⟨m', hm, hnext, hv⟩ := d.label_livesIn m
  rw [← h.next] at hnext hv
  exact ⟨m', hm, ⟨hnext, fun g name w hw => (h.bound g name w hw).mono hm⟩, hv⟩

end Store.KeptIn

/-! ## Evaluation -/

/-- Stages told by the objects that have been made. -/
def memoryStages : Stages Memory where
  leads m m' := m <+: m'
  code m e := e.LivesIn m
  value m v := v.LivesIn m
  frame m fr := fr.Binds (Value.LivesIn m)
  store m s := s.KeptIn m
  leads_refl := List.prefix_refl
  leads_trans := List.IsPrefix.trans
  code_mono := Value.LivesIn.mono
  value_mono := Value.LivesIn.mono
  frame_mono hm hfr name v hv := (hfr name v hv).mono hm
  code_parts he := he.2
  code_body hp := hp.2
  value_of_code _ he := he
  value_inherits _ := Value.inherits_livesIn
  value_sym _ _ := trivial
  frame_empty _ := Frame.binds_empty
  frame_define name hfr hv := hfr.define name hv
  store_bound hs hv := hs.bound _ _ _ hv
  store_define f name hs hv := hs.define f name hv
  store_addFrame hs hfr := hs.addFrame hfr
  make_pair hs hcar hcdr := by
    obtain ⟨hm, hs', hplace⟩ := hs.freshLabel (.pair _ _ _)
    exact ⟨_, hm, hs', hplace, hcar.mono hm, hcdr.mono hm⟩
  make_closure name ps f hs hbody := by
    obtain ⟨hm, hs', hplace⟩ := hs.freshLabel (.closure _ name ps _ f)
    exact ⟨_, hm, hs', hplace, hbody.mono hm⟩

/-- **Evaluation keeps to one memory.**  It adds objects and changes none; all that frames bind, the value it comes to
and the expression that an error blames are made of them. -/
theorem evaluate_inOneMemory {limit fuel d : Nat} {f : FrameId} {e : Value} {s s' : Store} {m : Memory}
    {o : Except Raised Value} (hs : s.KeptIn m) (he : e.LivesIn m)
    (h : evaluate limit fuel f e ⟨s, d⟩ = Run.ended o ⟨s', d⟩) :
    ∃ m', m <+: m' ∧ s'.KeptIn m' ∧
      match o with
      | .ok v => v.LivesIn m'
      | .error r => r.blame.LivesIn m' := by
  obtain ⟨m', hm, hs', ho⟩ := (Starts.of_ended h).goesOn memoryStages m he hs
  refine ⟨m', hm, hs', ?_⟩
  cases o <;> exact ho

/-! ## From the start on -/

/-- **A new interpreter keeps to one memory.** -/
theorem Interpreter.start_inOneMemory (args : List String) (limit : Nat) :
    ∃ m, (start args limit).machine.store.KeptIn m := by
  obtain ⟨m, -, hnext, hargs⟩ := (Datum.ofList (args.map .str)).label_livesIn []
  obtain ⟨-, -, hbound⟩ := start_spec (P := Value.LivesIn m) (fun _ => trivial) args hargs limit
  exact ⟨m, hnext, hbound⟩

/-- **So does one that has evaluated a datum**, and what this came to is made of the same objects. -/
theorem Interpreter.evaluateIn_inOneMemory {frame : FrameId} {d : Datum} {i : Interpreter} {m : Memory}
    (hi : i.machine.store.KeptIn m) (hdone : (i.evaluateIn frame d).2 ≠ .error .unfinished) :
    ∃ m', m <+: m' ∧ (i.evaluateIn frame d).1.machine.store.KeptIn m' ∧
      ∀ v, (i.evaluateIn frame d).2 = .ok v → v.LivesIn m' := by
  obtain ⟨m₁, hm₁, hplaced, he⟩ := hi.place d
  obtain ⟨m', hm', hdone⟩ := evaluateIn_goesOn memoryStages hplaced he hdone
  exact ⟨m', hm₁.trans hm', hdone⟩

end LispSession
