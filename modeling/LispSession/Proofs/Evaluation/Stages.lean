import LispSession.Proofs.Evaluation.Soundness
import LispSession.Proofs.Evaluation.Primitives
import LispSession.Proofs.Frames
/-!
# Stages

An evaluation makes objects, each with the next label, and never takes one back.  What has been made so far is a stage.
It may be told by how many labels are given out, or by the objects themselves.  What belongs to a stage belongs to all
later ones.

`Stages` says what has to be known of each way in which an object is made, a name bound or a value taken apart.  Then
evaluation goes on from stage to stage, whatever the expression: all that it hands on, and all that frames bind, belongs
to the stage that is reached (`Starts.goesOn`).
-/
namespace LispSession

/-- Stages of an evaluation, and what belongs to each. -/
structure Stages (σ : Type) where
  /-- One stage may lead to another. -/
  leads : σ → σ → Prop
  /-- The expressions to evaluate. -/
  code : σ → Value → Prop
  /-- The values to handle. -/
  value : σ → Value → Prop
  /-- The frames to bind names in. -/
  frame : σ → Frame → Prop
  /-- What a store is like at a stage. -/
  store : σ → Store → Prop
  -- Nothing is lost on the way.
  leads_refl (t : σ) : leads t t
  leads_trans {t u w : σ} : leads t u → leads u w → leads t w
  code_mono {t u : σ} {e : Value} : leads t u → code t e → code u e
  value_mono {t u : σ} {v : Value} : leads t u → value t v → value u v
  frame_mono {t u : σ} {fr : Frame} : leads t u → frame t fr → frame u fr
  -- Expressions are taken apart, and may be data.
  code_parts {t : σ} {l : Label} {car cdr : Value} : code t (.pair l car cdr) → code t car ∧ code t cdr
  code_body {t : σ} {l : Label} {name : Option String} {ps : Parameters} {body : Value} {f : FrameId} :
    value t (.closure l name ps body f) → code t body
  value_of_code {t : σ} {s : Store} {e : Value} : store t s → code t e → value t e
  -- Values without a label are made, and pairs are taken apart.
  value_inherits (t : σ) : Value.Inherits (value t)
  value_sym (t : σ) (name : String) : value t (.sym name)
  -- Names are bound.
  frame_empty (t : σ) (parent : Option FrameId) : frame t { parent := parent }
  frame_define {t : σ} {fr : Frame} {v : Value} (name : String) : frame t fr → value t v → frame t (fr.define name v)
  store_bound {t : σ} {s : Store} {g : FrameId} {name : String} {v : Value} :
    store t s → s.bound? g name = some v → value t v
  store_define {t : σ} {s : Store} {v : Value} (f : FrameId) (name : String) :
    store t s → value t v → store t (s.define f name v)
  store_addFrame {t : σ} {s : Store} {fr : Frame} : store t s → frame t fr → store t (s.addFrame fr).2
  -- Objects are made.
  make_pair {t : σ} {s : Store} {car cdr : Value} : store t s → value t car → value t cdr →
    ∃ u, leads t u ∧ store u s.freshLabel.2 ∧ value u (.pair s.nextLabel car cdr)
  make_closure {t : σ} {s : Store} {body : Value} (name : Option String) (ps : Parameters) (f : FrameId) :
    store t s → code t body → ∃ u, leads t u ∧ store u s.freshLabel.2 ∧ value u (.closure s.nextLabel name ps body f)

namespace Stages

variable {σ α β : Type} {S : Stages σ} {t : σ} {s s₁ s' : Store} {v : Value}

/-! ## One step -/

theorem code_element {e : Value} (h : S.code t e) : ∀ x ∈ e.elements, S.code t x := by
  induction e with
  | pair l car cdr _ ih =>
    obtain ⟨hcar, hcdr⟩ := S.code_parts h
    exact List.forall_mem_cons.2 ⟨hcar, ih hcdr⟩
  | _ => nofun

theorem code_item {e : Value} {items : List Value} (h : S.code t e) (hitems : e.toList? = some items) :
    ∀ x ∈ items, S.code t x :=
  Value.elements_of_toList? hitems ▸ code_element h

theorem frame_defineAll {fr : Frame} (h : S.frame t fr) (pairs : List (String × Value))
    (hpairs : ∀ p ∈ pairs, S.value t p.2) :
    S.frame t (pairs.foldl (fun f (name, v) => f.define name v) fr) := by
  induction pairs generalizing fr with
  | nil => exact h
  | cons p later ih =>
    rw [List.forall_mem_cons] at hpairs
    exact ih (S.frame_define p.1 h hpairs.1) hpairs.2

theorem store_resolve {name : String} {f g : FrameId} (hs : S.store t s) (h : s.resolve name f = some (g, v)) :
    S.value t v := by
  obtain ⟨-, hbound⟩ := Store.resolve_spec (P := fun _ => True) (fun _ _ _ _ => trivial) trivial h
  exact S.store_bound hs hbound

/-- Pairs are made from the last item on. -/
theorem make_chain {items : List Value} {tail : Value} (hs : S.store t s) (hitems : ∀ v ∈ items, S.value t v)
    (htail : S.value t tail) :
    ∃ u, S.leads t u ∧ S.store u (s.chain items tail).2 ∧ S.value u (s.chain items tail).1 := by
  replace hitems : ∀ v ∈ items.reverse, S.value t v := fun v hv => hitems v (List.mem_reverse.1 hv)
  unfold Store.chain
  generalize items.reverse = todo at hitems ⊢
  induction todo generalizing t s tail with
  | nil => exact ⟨t, S.leads_refl t, hs, htail⟩
  | cons v later ih =>
    rw [List.forall_mem_cons] at hitems
    obtain ⟨u, hu, hs', hpair⟩ := S.make_pair hs hitems.1 htail
    obtain ⟨w, hw, hmade⟩ := ih hs' hpair fun x hx => S.value_mono hu (hitems.2 x hx)
    exact ⟨w, S.leads_trans hu hw, hmade⟩

theorem store_bind {args : List Value} (hs : S.store t s) (ps : Parameters) (hargs : ∀ v ∈ args, S.value t v)
    (parent : FrameId) :
    ∃ u, S.leads t u ∧ S.store u (s.bind ps args parent).2 := by
  have hframe :=
    frame_defineAll (S.frame_empty t (some parent)) (ps.required.zip args) fun p hp => hargs _ (List.of_mem_zip hp).2
  unfold Store.bind
  cases ps.rest with
  | none => exact ⟨t, S.leads_refl t, S.store_addFrame hs hframe⟩
  | some rest =>
    obtain ⟨u, hu, hs', hfurther⟩ :=
      make_chain hs (fun v hv => hargs v (List.mem_of_mem_drop hv)) (S.value_inherits t).nil
    exact ⟨u, hu, S.store_addFrame hs' (S.frame_define rest (S.frame_mono hu hframe) hfurther)⟩

/-! ## Evaluation -/

/-- From a stage, an evaluation goes on to one that is led to.  What it hands on belongs there, be it a value or an
expression to blame. -/
def GoesOn (S : Stages σ) (P : σ → α → Prop) (t : σ) (s : Store) (o : Except Raised α) (s' : Store) : Prop :=
  S.store t s → ∃ u, S.leads t u ∧ S.store u s' ∧
    match o with
    | .ok a => P u a
    | .error r => S.code u r.blame

namespace GoesOn

variable {P : σ → α → Prop} {Q : σ → β → Prop}

theorem ok {a : α} (h : S.store t s → P t a) : S.GoesOn P t s (.ok a) s := fun hs => ⟨t, S.leads_refl t, hs, h hs⟩

theorem error {r : Raised} (h : S.code t r.blame) : S.GoesOn P t s (.error r) s := fun hs => ⟨t, S.leads_refl t, hs, h⟩

theorem andThen {a : α} {o : Except Raised β} (h : S.GoesOn P t s (.ok a) s₁)
    (hnext : ∀ u, S.leads t u → P u a → S.GoesOn Q u s₁ o s') : S.GoesOn Q t s o s' := by
  intro hs
  obtain ⟨u, hu, hs₁, ha⟩ := h hs
  obtain ⟨w, hw, hs', ho⟩ := hnext u hu ha hs₁
  exact ⟨w, S.leads_trans hu hw, hs', ho⟩

theorem raised {r : Raised} (h : S.GoesOn P t s (.error r) s') : S.GoesOn Q t s (.error r) s' := h

theorem lookup {f : FrameId} {name : String} (h : s.lookup f name = some v) : S.GoesOn S.value t s (.ok v) s := by
  obtain ⟨⟨g, w⟩, hresolve, rfl⟩ := Option.map_eq_some_iff.1 h
  exact ok fun hs => store_resolve hs hresolve

theorem define (f : FrameId) (name : String) (hv : S.value t v) :
    S.GoesOn S.value t s (.ok (.sym name)) (s.define f name v) :=
  fun hs => ⟨t, S.leads_refl t, S.store_define f name hs hv, S.value_sym t name⟩

theorem assign {f : FrameId} {name : String} (ha : s.assign f name v = some s') (hv : S.value t v) :
    S.GoesOn S.value t s (.ok v) s' := by
  obtain ⟨⟨g, w⟩, -, rfl⟩ := Option.map_eq_some_iff.1 ha
  exact fun hs => ⟨t, S.leads_refl t, S.store_define g name hs hv, hv⟩

theorem closes {name : Option String} {params body blame : Value} {f : FrameId} {o : Except Raised Value}
    (h : Closes name params body f blame s o s') (hbody : S.code t body) (hblame : S.code t blame) :
    S.GoesOn S.value t s o s' := by
  cases h with
  | @made ps => exact fun hs => S.make_closure name ps f hs hbody
  | noBody | badParameters => exact error hblame

theorem chain {items : List Value} {tail : Value} (h : (Answer.chain items tail).Made (S.value t)) :
    S.GoesOn S.value t s (.ok (s.chain items tail).1) (s.chain items tail).2 := fun hs => make_chain hs h.1 h.2

end GoesOn

end Stages

section Derivations

open Stages

variable {σ : Type} (S : Stages σ) {limit : Nat}

mutual

/-- **Evaluation goes on from stage to stage**, by induction over the derivation.  What is handed on at a stage is what
the next premise begins with. -/
theorem Starts.goesOn {d f e s o s'} :
    Starts limit d f e s o s' → ∀ t, S.code t e → S.GoesOn S.value t s o s'
  | .tooDeep _, _, he => .error he
  | .within _ h, t, he => h.goesOn t he

theorem Evaluates.goesOn {d f e s o s'} :
    Evaluates limit d f e s o s' → ∀ t, S.code t e → S.GoesOn S.value t s o s'
  | .itself _ _, _, he => .ok fun hs => S.value_of_code hs he
  | .variable h, _, _ => .lookup h
  | .unbound _, _, he => .error he
  | .improper _ _, _, he => .error he
  | .quote h, _, he => .ok fun hs => S.value_of_code hs (code_item he h _ (by simp))
  | .quoteMalformed _ _, _, he => .error he
  | .condTrue h _ htest _ hc, t, he =>
    (htest.goesOn t (code_item he h _ (by simp))).andThen fun u hu _ =>
      hc.goesOn u (S.code_mono hu (code_item he h _ (by simp)))
  | .condFalse h htest _ ha, t, he =>
    (htest.goesOn t (code_item he h _ (by simp))).andThen fun u hu _ =>
      ha.goesOn u (S.code_mono hu (code_item he h _ (by simp)))
  | .condNothing h htest _, t, he =>
    (htest.goesOn t (code_item he h _ (by simp))).andThen fun u _ _ => .ok fun _ => (S.value_inherits u).nil
  | .condRaised h _ htest, t, he => htest.goesOn t (code_item he h _ (by simp))
  | .condMalformed _ _, _, he => .error he
  | .define h hvalue, t, he =>
    (hvalue.goesOn t (code_item he h _ (by simp))).andThen fun _ _ hv => .define _ _ hv
  | .defineRaised h hvalue, t, he => hvalue.goesOn t (code_item he h _ (by simp))
  | .defineProcedure _ hc, _, he =>
    (GoesOn.closes hc (S.code_parts (S.code_parts he).2).2 he).andThen fun _ _ hv => .define _ _ hv
  | .defineProcedureMalformed _ hc, _, he => .closes hc (S.code_parts (S.code_parts he).2).2 he
  | .defineNameless _ _, _, he => .error he
  | .defineMalformed _ _ _, _, he => .error he
  | .assign h hvalue ha, t, he =>
    (hvalue.goesOn t (code_item he h _ (by simp))).andThen fun _ _ hv => .assign ha hv
  | .assignUnbound h hvalue _, t, he =>
    (hvalue.goesOn t (code_item he h _ (by simp))).andThen fun _ hu _ => .error (S.code_mono hu he)
  | .assignRaised h hvalue, t, he => hvalue.goesOn t (code_item he h _ (by simp))
  | .assignMalformed _ _, _, he => .error he
  | .lambda _ hc, _, he => .closes hc (S.code_parts (S.code_parts he).2).2 he
  | .lambdaMalformed _, _, he => .error he
  | .sequence h hb, t, he => hb.goesOn t fun x hx => code_item he h x (by simp [hx])
  | .binding h hitems hbind _ hb, t, he =>
    (hbind.goesOn t he (code_item (code_item he h _ (by simp)) hitems) (S.frame_empty t _)).andThen
        fun u hu hinner hs =>
      hb.goesOn u (fun x hx => S.code_mono hu (code_item he h x (by simp [hx]))) (S.store_addFrame hs hinner)
  | .bindingRaised h hitems hbind, t, he =>
    (hbind.goesOn t he (code_item (code_item he h _ (by simp)) hitems) (S.frame_empty t _)).raised
  | .bindingNoBody h hitems hbind, t, he =>
    (hbind.goesOn t he (code_item (code_item he h _ (by simp)) hitems) (S.frame_empty t _)).andThen fun _ hu _ =>
      .error (S.code_mono hu he)
  | .bindingMalformed _ _, _, he => .error he
  | .conjunction h hu, t, he => hu.goesOn t fun x hx => code_item he h x (by simp [hx])
  | .disjunction h hu, t, he => hu.goesOn t fun x hx => code_item he h x (by simp [hx])
  | .call h _ hhead hargs ha, t, he =>
    (hhead.goesOn t (code_item he h _ (by simp))).andThen fun u hu hp =>
      (hargs.goesOn u fun x hx => S.code_mono hu (code_item he h x (by simp [hx]))).andThen fun w hw hvs =>
        ha.goesOn w (S.code_mono (S.leads_trans hu hw) he) (S.value_mono hw hp) hvs
  | .headRaised h _ hhead, t, he => hhead.goesOn t (code_item he h _ (by simp))
  | .argsRaised h _ hhead hargs, t, he =>
    (hhead.goesOn t (code_item he h _ (by simp))).andThen fun u hu _ =>
      (hargs.goesOn u fun x hx => S.code_mono hu (code_item he h x (by simp [hx]))).raised

theorem RunsBody.goesOn {d f es s o s'} :
    RunsBody limit d f es s o s' → ∀ t, (∀ e ∈ es, S.code t e) → S.GoesOn S.value t s o s'
  | .none, t, _ => .ok fun _ => (S.value_inherits t).nil
  | .last he, t, hall => he.goesOn t (hall _ (by simp))
  | .next _ he hes, t, hall =>
    (he.goesOn t (hall _ (by simp))).andThen fun u hu _ =>
      hes.goesOn u fun x hx => S.code_mono hu (hall x (by simp [hx]))
  | .raised _ he, t, hall => he.goesOn t (hall _ (by simp))

theorem RunsUntil.goesOn {stop d f es s o s'} :
    RunsUntil limit stop d f es s o s' → ∀ t, (∀ e ∈ es, S.code t e) → S.GoesOn S.value t s o s'
  | .none, t, _ => .ok fun _ => (S.value_inherits t).bool _
  | .last he, t, hall => he.goesOn t (hall _ (by simp))
  | .stopped _ he _, t, hall => he.goesOn t (hall _ (by simp))
  | .next _ he _ hes, t, hall =>
    (he.goesOn t (hall _ (by simp))).andThen fun u hu _ =>
      hes.goesOn u fun x hx => S.code_mono hu (hall x (by simp [hx]))
  | .raised _ he, t, hall => he.goesOn t (hall _ (by simp))

theorem EvaluatesAll.goesOn {d f es s o s'} :
    EvaluatesAll limit d f es s o s' → ∀ t, (∀ e ∈ es, S.code t e) →
      S.GoesOn (fun u vs => ∀ v ∈ vs, S.value u v) t s o s'
  | .nil, _, _ => .ok fun _ => nofun
  | .cons he hes, t, hall =>
    (he.goesOn t (hall _ (by simp))).andThen fun u hu hv =>
      (hes.goesOn u fun x hx => S.code_mono hu (hall x (by simp [hx]))).andThen fun _ hw hvs =>
        .ok fun _ => List.forall_mem_cons.2 ⟨S.value_mono hw hv, hvs⟩
  | .first he, t, hall => (he.goesOn t (hall _ (by simp))).raised
  | .later he hes, t, hall =>
    (he.goesOn t (hall _ (by simp))).andThen fun u hu _ =>
      hes.goesOn u fun x hx => S.code_mono hu (hall x (by simp [hx]))

theorem Binds.goesOn {d f blame items inner s o s'} :
    Binds limit d f blame items inner s o s' → ∀ t, S.code t blame → (∀ item ∈ items, S.code t item) →
      S.frame t inner → S.GoesOn S.frame t s o s'
  | .nil, _, _, _, hinner => .ok fun _ => hinner
  | .cons h hinit hitems, t, hblame, hall, hinner =>
    (hinit.goesOn t (code_item (hall _ (by simp)) h _ (by simp))).andThen fun u hu hv =>
      hitems.goesOn u (S.code_mono hu hblame) (fun x hx => S.code_mono hu (hall x (by simp [hx])))
        (S.frame_define _ (S.frame_mono hu hinner) hv)
  | .raised h hinit, t, _, hall, _ => (hinit.goesOn t (code_item (hall _ (by simp)) h _ (by simp))).raised
  | .malformed _, _, hblame, _, _ => .error hblame

theorem Applies.goesOn {d e p args s o s'} :
    Applies limit d e p args s o s' → ∀ t, S.code t e → S.value t p → (∀ v ∈ args, S.value t v) →
      S.GoesOn S.value t s o s'
  | .value h, t, _, _, hargs => .ok fun _ => Primitive.call_made (S.value_inherits t) h hargs
  | .chain h, t, _, _, hargs => .chain (Primitive.call_made (S.value_inherits t) h hargs)
  | .failure _, _, he, _, _ => .error he
  | .closure _ hb, t, _, hp, hargs => fun hs => by
    obtain ⟨u, hu, hs'⟩ := store_bind hs _ hargs _
    obtain ⟨w, hw, hdone⟩ := hb.goesOn u (fun x hx => S.code_mono hu (code_element (S.code_body hp) x hx)) hs'
    exact ⟨w, S.leads_trans hu hw, hdone⟩
  | .mismatch _, _, he, _, _ => .error he
  | .uncallable _, _, he, _, _ => .error he

end

end Derivations

/-- So it does when a datum is evaluated in an interpreter, if this comes to an end. -/
theorem Interpreter.evaluateIn_goesOn {σ : Type} (S : Stages σ) {frame : FrameId} {d : Datum} {i : Interpreter} {t : σ}
    (hs : S.store t (i.machine.store.place d).2) (he : S.code t (i.machine.store.place d).1)
    (hdone : (i.evaluateIn frame d).2 ≠ .error .unfinished) :
    ∃ u, S.leads t u ∧ S.store u (i.evaluateIn frame d).1.machine.store ∧
      ∀ v, (i.evaluateIn frame d).2 = .ok v → S.value u v := by
  obtain ⟨⟨store, depth⟩, globals, limit⟩ := i
  unfold evaluateIn at hdone ⊢
  dsimp only at hs he hdone ⊢
  obtain ⟨m, hm⟩ | ⟨o, s', hended, hstarts⟩ :=
    evaluate_yields limit evaluationFuel depth frame (store.place d).1 (store.place d).2
  · rw [hm] at hdone
    exact absurd rfl hdone
  · obtain ⟨u, hu, hs', ho⟩ := hstarts.goesOn S t he hs
    rw [hended]
    refine ⟨u, hu, ?_⟩
    cases o with
    | ok v => exact ⟨hs', fun w hw => Except.ok.inj hw ▸ ho⟩
    | error r => exact ⟨hs', nofun⟩

end LispSession
