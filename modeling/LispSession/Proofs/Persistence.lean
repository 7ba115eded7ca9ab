import Mathlib.Logic.Relation
import LispSession.Proofs.Evaluation.Reach
import LispSession.Proofs.Session.Standard
/-!
# Nothing is ever unbound

Evaluation adds frames, adds names to frames and binds names anew, and does nothing else to a store.  So frames stay,
with their parents and their names (`Store.Persists`), and a new frame, under one that is there, closes no circle
(`Store.Acyclic`).

Names are only added to a frame by `define`, in the frame that it is evaluated in.  The bodies of closures and of `let`
are evaluated in new frames, whatever they say; so the only expression that can add names to a frame that is there
already is the one that the evaluation begins with (`Discipline.persisting`).
-/
namespace LispSession

namespace Store

variable {s s' : Store}

/-! ## Stores that grow -/

/-- What a store binds is bound in another one: its frames are there, with the same parents and at least the same
names. -/
structure Persists (s s' : Store) : Prop where
  grows : s.size ≤ s'.size
  parents : ∀ g < s.size, s'.parent? g = s.parent? g
  names : ∀ g name, (s.bound? g name).isSome → (s'.bound? g name).isSome

/-- The frames of a store have no other names in another one. -/
def GainsNoNames (s s' : Store) : Prop := ∀ g < s.size, ∀ name, (s'.bound? g name).isSome → (s.bound? g name).isSome

namespace Persists

theorem refl (s : Store) : s.Persists s := ⟨Nat.le_refl _, fun _ _ => rfl, fun _ _ h => h⟩

theorem trans {s'' : Store} (h : s.Persists s') (h' : s'.Persists s'') : s.Persists s'' where
  grows := Nat.le_trans h.grows h'.grows
  parents g hg := (h'.parents g (Nat.lt_of_lt_of_le hg h.grows)).trans (h.parents g hg)
  names g name hbound := h'.names g name (h.names g name hbound)

/-- A name that resolves goes on to resolve. -/
theorem resolve (h : s.Persists s') {name : String} {g : FrameId} (hr : (s.resolve name g).isSome) :
    (s'.resolve name g).isSome :=
  resolve_isSome_mono h.names (fun g _ hp => (h.parents g (lt_size_of_parent? hp)).trans hp) hr

theorem define (h : s.Persists s') (f : FrameId) (name : String) (v : Value) : s.Persists (s'.define f name v) where
  grows := (size_define ..).symm ▸ h.grows
  parents g hg := (parent?_define ..).trans (h.parents g hg)
  names g other hbound := by
    rw [bound?_define]
    split
    · rfl
    · exact h.names g other hbound

theorem addFrame (h : s.Persists s') (fr : Frame) : s.Persists (s'.addFrame fr).2 where
  grows := Nat.le_trans h.grows (by rw [size_addFrame]; exact Nat.le_succ _)
  parents g hg := by
    rw [parent?_addFrame, if_neg (Nat.ne_of_lt (Nat.lt_of_lt_of_le hg h.grows))]
    exact h.parents g hg
  names g name hbound := by
    obtain ⟨v, hv⟩ := Option.isSome_iff_exists.1 hbound
    rw [bound?_addFrame, if_neg (Nat.ne_of_lt (Nat.lt_of_lt_of_le (lt_size_of_bound? hv) h.grows))]
    exact h.names g name hbound

end Persists

namespace GainsNoNames

/-- A definition elsewhere, or of a name that is there, adds no name. -/
theorem define (h : s.GainsNoNames s') {f : FrameId} {name : String}
    (hf : f < s.size → (s'.bound? f name).isSome) (v : Value) :
    s.GainsNoNames (s'.define f name v) := by
  intro g hg other hbound
  rw [bound?_define] at hbound
  split at hbound
  · next hsame =>
    obtain ⟨rfl, -, rfl⟩ := hsame
    exact h g hg other (hf hg)
  · exact h g hg other hbound

theorem addFrame (h : s.GainsNoNames s') (hle : s.size ≤ s'.size) (fr : Frame) : s.GainsNoNames (s'.addFrame fr).2 := by
  intro g hg name hbound
  rw [bound?_addFrame, if_neg (Nat.ne_of_lt (Nat.lt_of_lt_of_le hg hle))] at hbound
  exact h g hg name hbound

end GainsNoNames

/-! ## Stores without circles -/

/-- Every frame that something in a store leads to is there. -/
def Complete (s : Store) : Prop := s.Guards (fun n g => g < n) (Value.Within fun n g => g < n)

/-- No frame comes up among its parents. -/
def Acyclic (s : Store) : Prop := ∀ g, ¬Relation.TransGen (fun g p => s.parent? g = some p) g g

theorem Complete.parent_lt (h : s.Complete) {g p : FrameId} (hp : s.parent? g = some p) : p < s.size :=
  h.parent g p (lt_size_of_parent? hp) hp

theorem Complete.addFrame (h : s.Complete) {p : FrameId} {fr : Frame} (hp : p < s.size) (hparent : fr.parent = some p)
    (hbinds : fr.Binds (Value.Within (fun n g => g < n) s.size)) : (s.addFrame fr).2.Complete :=
  Guards.addFrame h Nat.lt_succ_of_lt (fun hg hne => Nat.lt_of_le_of_ne (Nat.le_of_lt_succ hg) hne)
    (fun hv g hg => Nat.lt_succ_of_lt (hv g hg)) hp hparent hbinds

/-- Where parents come first there are no circles. -/
theorem acyclic_of_lt (h : ∀ g p, s.parent? g = some p → p < g) : s.Acyclic := by
  have before {g p : FrameId} (hgp : Relation.TransGen (fun g p => s.parent? g = some p) g p) : p < g := by
    induction hgp with
    | single hp => exact h _ _ hp
    | tail _ hp ih => exact Nat.lt_trans (h _ _ hp) ih
  exact fun g hg => Nat.lt_irrefl g (before hg)

theorem Acyclic.define (h : s.Acyclic) (f : FrameId) (name : String) (v : Value) : (s.define f name v).Acyclic := by
  simpa only [Acyclic, parent?_define] using h

/-- **A new frame under one that is there closes no circle**: no frame that was there leads to it. -/
theorem Acyclic.addFrame (h : s.Acyclic) (hs : s.Complete) {p : FrameId} {fr : Frame} (hp : p < s.size)
    (hparent : fr.parent = some p) : (s.addFrame fr).2.Acyclic := by
  have old {g p : FrameId} (hg : g < s.size) (hp : (s.addFrame fr).2.parent? g = some p) : s.parent? g = some p := by
    rwa [parent?_addFrame, if_neg (Nat.ne_of_lt hg)] at hp
  have target {g q : FrameId} (hq : (s.addFrame fr).2.parent? g = some q) : q < s.size := by
    rw [parent?_addFrame] at hq
    split at hq
    · cases hparent.symm.trans hq
      exact hp
    · exact hs.parent_lt hq
  -- a way from a frame that was there stays among those
  have way {g p : FrameId} (hg : g < s.size)
      (hgp : Relation.TransGen (fun g p => (s.addFrame fr).2.parent? g = some p) g p) :
      p < s.size ∧ Relation.TransGen (fun g p => s.parent? g = some p) g p := by
    induction hgp with
    | single hp => exact ⟨target hp, .single (old hg hp)⟩
    | tail _ hp ih => exact ⟨target hp, ih.2.tail (old ih.1 hp)⟩
  intro g hcircle
  have hg : g < s.size := by
    cases hcircle with
    | single hp => exact target hp
    | tail _ hp => exact target hp
  exact h g (way hg hcircle).2

end Store

/-! ## The disciplines -/

/-- Evaluation persists since the first store.  If the names of its frames are to stay `fixed`, `define` is not to be
evaluated in one of them. -/
def Discipline.persisting (first : Store) (fixed : Prop) : Discipline where
  frame _ _ := True
  value _ _ := True
  code _ f e := fixed → f < first.size → e.content.mentions "define" = false
  store s := first.Persists s ∧ (fixed → first.GainsNoNames s)
  closureless := False
  value_mono _ h := h
  code_mono _ h := h
  frame_of_code _ := trivial
  value_of_code _ := trivial
  code_element h hx hfixed hf := Value.mentions_element (h hfixed hf) hx
  code_nil _ _ _ := rfl
  value_nil := trivial
  value_bool _ := trivial
  value_num _ := trivial
  value_pair := ⟨fun _ => ⟨trivial, trivial⟩, fun _ => trivial⟩
  value_closure _ _ _ _ _ := trivial
  frame_of_closure _ := trivial
  code_body hs _ _ _ hf := absurd hf (Nat.not_lt.2 hs.1.grows)
  code_enter hs _ _ hf := absurd hf (Nat.not_lt.2 hs.1.grows)
  not_closure := False.elim
  store_bound _ _ _ := trivial
  store_parent _ _ _ := trivial
  store_labelled _ hs := ⟨⟨hs.1.grows, hs.1.parents, hs.1.names⟩, hs.2⟩
  store_define name hs h _ :=
    ⟨hs.1.define _ name _,
      fun hfixed => (hs.2 hfixed).define (fun hf => absurd (h hfixed hf) (by simp [Value.content, Datum.mentions])) _⟩
  store_assign hs _ hbound _ := ⟨hs.1.define .., fun hfixed => (hs.2 hfixed).define (fun _ => by rw [hbound]; rfl) _⟩
  store_addFrame hs _ _ _ := ⟨hs.1.addFrame _, fun hfixed => (hs.2 hfixed).addFrame hs.1.grows _⟩

/-- Evaluation never leads to a frame that is not there, nor closes a circle. -/
def Discipline.acyclic : Discipline :=
  .within (fun n g => g < n) (fun s => s.Complete ∧ s.Acyclic) (fun hle hg => Nat.lt_of_lt_of_le hg hle)
    (fun _ => Nat.lt_succ_self _) (fun hs => hs.1) (fun next hs => ⟨hs.1.labelledFrom next, hs.2⟩)
    (fun name hs _ hv => ⟨hs.1.define _ name hv, hs.2.define _ name _⟩)
    fun hs hp hparent hbinds => ⟨hs.1.addFrame hp hparent hbinds, hs.2.addFrame hs.1 hp hparent⟩

/-! ## Sessions -/

namespace Interpreter

/-- Whatever becomes of an evaluation, and be it given up, everything stays bound. -/
theorem persists_eval (i : Interpreter) (d : Datum) (environment : FrameId) :
    i.machine.store.Persists (Evaluator.standard.eval i d environment).1.machine.store := by
  obtain ⟨s', rfl, -, hs, -⟩ :=
    (Discipline.persisting i.machine.store False).standard_keeps id i d environment ⟨.refl _, False.elim⟩ False.elim
  exact hs.1

/-- An interpreter without circles, with its global frame in the store. -/
structure WellLinked (globals : FrameId) (i : Interpreter) : Prop where
  complete : i.machine.store.Complete
  acyclic : i.machine.store.Acyclic
  globals_lt : globals < i.machine.store.size

theorem start_wellLinked (args : List String) (limit : Nat) :
    (start args limit).WellLinked (start args limit).globals := by
  obtain ⟨hglobals, hparent, hbound⟩ := Interpreter.start_spec (P := fun v => v.frames true = []) (fun _ => rfl) args
    (Datum.frames_label _ _ true) limit
  refine ⟨⟨fun g name v _ hv c hc => ?_, fun g p _ hp => ?_⟩, Store.acyclic_of_lt fun g p hp => ?_, hglobals⟩
  · rw [hbound g name v hv] at hc
    cases hc
  · cases (hparent g).symm.trans hp
  · cases (hparent g).symm.trans hp

theorem WellLinked.eval {globals : FrameId} {i : Interpreter} (h : i.WellLinked globals) (d : Datum) :
    (Evaluator.standard.eval i d globals).1.WellLinked globals := by
  have hplaced : (i.machine.store.place d).1.frames true = [] := d.frames_label _ true
  obtain ⟨s', rfl, hle, hs, -⟩ := Discipline.acyclic.standard_keeps id i d globals ⟨h.complete, h.acyclic⟩
    ⟨h.globals_lt, fun g hg => absurd (hplaced ▸ hg) List.not_mem_nil⟩
  exact ⟨hs.1, hs.2, Nat.lt_of_lt_of_le h.globals_lt hle⟩

end Interpreter

namespace Session

theorem storeAfter_persists (outlet : Outlet) (sources : List Source) (interpreter : Interpreter) (globals : FrameId)
    (printer : Printer) (n k : Nat) : ((startOn outlet sources interpreter globals).storeAfter printer n).Persists
      ((startOn outlet sources interpreter globals).storeAfter printer (n + k)) := by
  have begun : (startOn outlet sources interpreter globals).Upholds globals (fun _ => True) (fun _ _ => True)
      (startOn outlet sources interpreter globals).initial := .start outlet sources interpreter trivial trivial
  obtain ⟨a, ha, -, hrunning⟩ := begun.runFor (fun _ _ _ _ _ => ⟨trivial, fun _ _ => trivial⟩) printer n
  unfold storeAfter
  rw [runFor_add, ha.evaluation]
  exact Upholds.evaluation (P := fun i => a.evaluation.machine.store.Persists i.machine.store)
    (fun i d h => h.trans (i.persists_eval d globals)) ⟨a, ha, .refl _, hrunning⟩ printer k

theorem storeAfter_wellLinked (outlet : Outlet) (sources : List Source) (args : List String) (limit : Nat)
    (printer : Printer) (n : Nat) :
    let begun := Interpreter.start args limit
    ((startOn outlet sources begun begun.globals).storeAfter printer n).Complete ∧
      ((startOn outlet sources begun begun.globals).storeAfter printer n).Acyclic := by
  intro begun
  have linked := Upholds.evaluation (fun _ d h => h.eval d)
    (.start outlet sources begun (Interpreter.start_wellLinked args limit) trivial) printer n
  exact ⟨linked.complete, linked.acyclic⟩

end Session

/-- **Evaluation never unbinds anything.**  Whatever it comes to, all frames that were there are there afterwards, with
the same parents and all their names.  If the expression does not mention `define`, none of these frames has another
name, whatever closures are called on the way.  And if there were no circles of parents, there are none afterwards; here
frames go by number, so that no number may lead to a frame that is yet to come.

So it is with sessions: a name that resolves from a frame after so many steps resolves from it after all further ones.
And from the start no session has circles of parents, or numbers without a frame. -/
theorem evaluation_never_unbinds :
    (∀ {limit fuel d d' : Nat} {f : FrameId} {e : Value} {s s' : Store} {o : Except Raised Value},
      evaluate limit fuel f e ⟨s, d⟩ = Run.ended o ⟨s', d'⟩ →
      s.Persists s' ∧ (e.content.mentions "define" = false → s.GainsNoNames s') ∧
      (s.Complete → f < s.size → e.Within (fun n g => g < n) s.size → s.Acyclic → s'.Complete ∧ s'.Acyclic)) ∧
    (∀ (outlet : Session.Outlet) (sources : List Source) (interpreter : Interpreter) (globals : FrameId)
      (printer : Printer) (n k : Nat) (name : String) (g : FrameId),
      let first := Session.startOn outlet sources interpreter globals
      ((first.storeAfter printer n).resolve name g).isSome →
      ((first.storeAfter printer (n + k)).resolve name g).isSome) ∧
    ∀ (outlet : Session.Outlet) (sources : List Source) (args : List String) (limit : Nat)
      (printer : Printer) (n : Nat),
      let begun := Interpreter.start args limit
      let first := Session.startOn outlet sources begun begun.globals
      (first.storeAfter printer n).Complete ∧ (first.storeAfter printer n).Acyclic := by
  refine ⟨fun {_ _ _ _ _ e s _ _} run => ?_, fun outlet sources i globals printer n k name g => ?_,
    Session.storeAfter_wellLinked⟩
  · have kept := ((Discipline.persisting s (e.content.mentions "define" = false)).evaluate_ended
      ⟨.refl s, fun _ _ _ _ h => h⟩ (fun hfree _ => hfree) False.elim run).2.1
    refine ⟨kept.1, kept.2, fun hcomplete hf he hacyclic => ?_⟩
    exact (Discipline.acyclic.evaluate_ended ⟨hcomplete, hacyclic⟩ ⟨hf, he⟩ False.elim run).2.1
  · exact (Session.storeAfter_persists outlet sources i globals printer n k).resolve

/-- `(bump)` calls a closure of frame 1 that defines a name and assigns another.  The definition is made in a new frame
under frame 1, so that the frames from before keep the names they have, and the new one closes no circle. -/
theorem call_with_definition_adds_no_name :
    let form (items : List Value) : Value := items.foldr (.pair 0) .nil
    let body := form [form [.sym "define", .sym "m", .bool true], form [.sym "set!", .sym "n", .bool false]]
    let e := form [.sym "bump"]
    let outer : Frame := { bindings := [("bump", .closure 1 (some "bump") ⟨[], none⟩ body 1)] }
    let inner (n : Bool) : Frame := { bindings := [("n", .bool n)], parent := some 0 }
    let s : Store := { frames := #[outer, inner true] }
    let s' : Store := { frames := #[outer, inner false, { bindings := [("m", .bool true)], parent := some 1 }] }
    evaluate 3 3 0 e ⟨s, 0⟩ = Run.ended (.ok (.bool false)) ⟨s', 0⟩ ∧ s.Complete ∧ s.Acyclic ∧
    s.Persists s' ∧ s.GainsNoNames s' ∧ s'.Complete ∧ s'.Acyclic := by
  intro form body e outer inner s s'
  have run : evaluate 3 3 0 e ⟨s, 0⟩ = Run.ended (.ok (.bool false)) ⟨s', 0⟩ := by with_unfolding_all rfl
  have parent {g p : FrameId} (h : s.parent? g = some p) : g = 1 ∧ p = 0 := by
    match g with
    | 0 => cases h
    | 1 => cases h; exact ⟨rfl, rfl⟩
    | g + 2 => cases h
  have only {n name : String} {v w : Value} (h : [(n, w)].lookup name = some v) : v = w := by
    rw [List.lookup_cons] at h
    split at h <;> cases h
    rfl
  have complete : s.Complete := by
    refine ⟨fun g name v _ hv => ?_, fun g p _ hp => (parent hp).2 ▸ by decide⟩
    match g with
    | 0 =>
      rw [only (n := "bump") hv]
      exact List.forall_mem_singleton.2 (by decide)
    | 1 =>
      rw [only (n := "n") hv]
      nofun
    | g + 2 => cases hv
  have acyclic : s.Acyclic := Store.acyclic_of_lt fun g p hp => by
    obtain ⟨rfl, rfl⟩ := parent hp
    decide
  obtain ⟨persists, fixed, linked⟩ := evaluation_never_unbinds.1 run
  exact ⟨run, complete, acyclic, persists, fixed (by decide), linked complete (by decide) nofun acyclic⟩

end LispSession
