import LispSession.Proofs.Persistence
/-!
# The nearest binding counts

A name may be bound in many frames, and a frame be the parent of many.  What a name means is what it was last given in
the nearest frame, from the one it is looked up from upwards, in which it was ever defined.  A definition makes its own
frame the nearest one for some of the frames below; an assignment leaves all nearest frames as they are and gives the
name a value where the frame it is made from sees it.

This is said of all that can be done with frames, in any order (`History`), in words that know nothing of stores: which
frames are made under which, which names are defined where, and which value was given last.  The store that comes out
agrees with them on every frame (`nearest_binding_counts`).
-/
namespace LispSession

/-- The nearest frame from one upwards that binds something, for any parents and any idea of which frames bind it. -/
inductive Nearest (parent : FrameId → Option FrameId) (binds : FrameId → Prop) : FrameId → FrameId → Prop
  | here {f : FrameId} : binds f → Nearest parent binds f f
  | up {f p g : FrameId} : ¬binds f → parent f = some p → Nearest parent binds p g → Nearest parent binds f g

/-- What is done with frames, one thing after the other, until there are so many.  It can only be done with frames that
are there. -/
inductive History : Nat → Type
  | start : History 0
  | new {n : Nat} (h : History n) : History (n + 1)
  | child {n : Nat} (h : History n) (parent : Fin n) : History (n + 1)
  | define {n : Nat} (h : History n) (f : Fin n) (name : String) (v : Value) : History n
  | assign {n : Nat} (h : History n) (f : Fin n) (name : String) (v : Value) : History n

namespace History

/-- The store that comes out.  To assign what is not bound leaves it as it is. -/
def store : {n : Nat} → History n → Store
  | _, .start => {}
  | _, .new h => (h.store.addFrame {}).2
  | _, .child h parent => (h.store.addFrame { parent := some parent.val }).2
  | _, .define h f name v => h.store.define f name v
  | _, .assign h f name v => (h.store.assign f name v).getD h.store

/-- The frame that a frame was made under. -/
def parent : {n : Nat} → History n → FrameId → Option FrameId
  | _, .start, _ => none
  | n + 1, .new h, g => if g = n then none else h.parent g
  | n + 1, .child h p, g => if g = n then some p.val else h.parent g
  | _, .define h _ _ _, g | _, .assign h _ _ _, g => h.parent g

/-- Whether a name was ever defined in a frame. -/
def Defines (name : String) : {n : Nat} → History n → FrameId → Prop
  | _, .start, _ => False
  | _, .new h, g | _, .child h _, g | _, .assign h _ _ _, g => h.Defines name g
  | _, .define h f other _, g => g = f ∧ name = other ∨ h.Defines name g

/-- The nearest frame, from one upwards, in which a name was ever defined. -/
def Sees {n : Nat} (h : History n) (name : String) (f g : FrameId) : Prop := Nearest h.parent (h.Defines name) f g

/-- The value that a name was given last in a frame, by a definition there or by an assignment from a frame that sees
the name there. -/
def LastGiven : {n : Nat} → History n → FrameId → String → Value → Prop
  | _, .start, _, _, _ => False
  | _, .new h, g, name, v | _, .child h _, g, name, v => h.LastGiven g name v
  | _, .define h f other w, g, name, v =>
    (g = f ∧ name = other) ∧ v = w ∨ ¬(g = f ∧ name = other) ∧ h.LastGiven g name v
  | _, .assign h f other w, g, name, v =>
    (h.Sees other f g ∧ name = other) ∧ v = w ∨ ¬(h.Sees other f g ∧ name = other) ∧ h.LastGiven g name v

end History

/-! ## Nearest frames -/

namespace Nearest

variable {parent : FrameId → Option FrameId} {binds binds' : FrameId → Prop} {f g g' x : FrameId}

theorem binds_target (h : Nearest parent binds f g) : binds g := by
  induction h with
  | here hf => exact hf
  | up _ _ _ ih => exact ih

theorem unique (h : Nearest parent binds f g) (h' : Nearest parent binds f g') : g = g' := by
  induction h with
  | here hf =>
    cases h' with
    | here => rfl
    | up hf' => exact absurd hf hf'
  | up hf hp _ ih =>
    cases h' with
    | here hf' => exact absurd hf' hf
    | up _ hp' hnearest => exact ih (by cases hp.symm.trans hp'; exact hnearest)

section Added

variable (hadded : ∀ y, binds' y ↔ y = x ∨ binds y)

include hadded

/-- With one more frame that binds, either it is the nearest one now, or nothing has changed. -/
theorem added (h : Nearest parent binds f g) : Nearest parent binds' f x ∨ Nearest parent binds' f g := by
  induction h with
  | here hf => exact .inr (.here ((hadded _).2 (.inr hf)))
  | @up f p g hf hp _ ih =>
    by_cases hx : f = x
    · rw [hx]
      exact .inl (.here ((hadded x).2 (.inl rfl)))
    · have hf' : ¬binds' f := fun h => ((hadded f).1 h).elim hx hf
      exact ih.imp (.up hf' hp) (.up hf' hp)

theorem removed (h : Nearest parent binds' f g) : g = x ∨ Nearest parent binds f g := by
  induction h with
  | here hf => exact ((hadded _).1 hf).imp_right .here
  | up hf hp _ ih => exact ih.imp_right (.up (fun h => hf ((hadded _).2 (.inr h))) hp)

theorem iff_of_not (hnot : ¬Nearest parent binds' f x) : Nearest parent binds' f g ↔ Nearest parent binds f g where
  mp h := (removed hadded h).resolve_left fun hg => hnot (hg ▸ h)
  mpr h := (added hadded h).resolve_left hnot

end Added

end Nearest

/-! ## Stores -/

namespace Store

variable {s : Store} {name other : String} {f g : FrameId} {v : Value}

/-- Parents are older than what they are parents of. -/
def Descends (s : Store) : Prop := ∀ g p, s.parent? g = some p → p < g

def Binds (s : Store) (name : String) (g : FrameId) : Prop := (s.bound? g name).isSome

theorem resolve_iff_nearest (hs : s.Descends) :
    s.resolve name f = some (g, v) ↔ Nearest s.parent? (s.Binds name) f g ∧ s.bound? g name = some v := by
  constructor
  · intro h
    induction f using Nat.strongRecOn with
    | ind f ih =>
      rw [resolve_eq] at h
      split at h
      · next hbound =>
        cases h
        exact ⟨.here (Option.isSome_of_mem hbound), hbound⟩
      · next hbound =>
        have hfree : ¬s.Binds name f := Option.not_isSome_iff_eq_none.2 hbound
        split at h
        · next p hparent =>
          rw [if_pos (hs f p hparent)] at h
          obtain ⟨hnearest, hg⟩ := ih p (hs f p hparent) h
          exact ⟨.up hfree hparent hnearest, hg⟩
        · cases h
  · rintro ⟨h, hbound⟩
    induction h with
    | here => rw [resolve_eq, hbound]
    | up hf hp _ ih =>
      rw [resolve_eq, Option.not_isSome_iff_eq_none.1 hf, hp]
      exact (if_pos (hs _ _ hp)).trans (ih hbound)

theorem lookup_iff_nearest (hs : s.Descends) :
    s.lookup f name = some v ↔ ∃ g, Nearest s.parent? (s.Binds name) f g ∧ s.bound? g name = some v := by
  unfold lookup
  rw [Option.map_eq_some_iff]
  constructor
  · rintro ⟨⟨g, w⟩, hr, rfl⟩
    exact ⟨g, (resolve_iff_nearest hs).1 hr⟩
  · rintro ⟨g, hg⟩
    exact ⟨(g, v), (resolve_iff_nearest hs).2 hg, rfl⟩

theorem lookup_isSome_iff_nearest (hs : s.Descends) :
    (s.lookup f name).isSome ↔ ∃ g, Nearest s.parent? (s.Binds name) f g := by
  rw [Option.isSome_iff_exists]
  constructor
  · rintro ⟨v, hv⟩
    obtain ⟨g, hg, -⟩ := (lookup_iff_nearest hs).1 hv
    exact ⟨g, hg⟩
  · rintro ⟨g, hg⟩
    obtain ⟨v, hv⟩ := Option.isSome_iff_exists.1 hg.binds_target
    exact ⟨v, (lookup_iff_nearest hs).2 ⟨g, hg, hv⟩⟩

/-- An assignment is a definition in the frame where the name is seen, if it is seen at all. -/
theorem assign_cases (s : Store) (f : FrameId) (name : String) (v : Value) :
    s.resolve name f = none ∧ s.assign f name v = none ∨
      ∃ g w, s.resolve name f = some (g, w) ∧ s.assign f name v = some (s.define g name v) := by
  unfold assign
  cases s.resolve name f with
  | none => exact .inl ⟨rfl, rfl⟩
  | some found => exact .inr ⟨found.1, found.2, rfl, rfl⟩

theorem bound?_addFrame_of_empty (parent : Option FrameId) : (s.addFrame { parent := parent }).2.bound? = s.bound? := by
  funext g name
  rw [bound?_addFrame]
  split
  · next hg =>
    refine (Option.eq_none_iff_forall_ne_some.2 fun v hv => ?_).symm
    exact Nat.lt_irrefl _ (hg ▸ lt_size_of_bound? hv)
  · rfl

theorem bound?_define_of_binds (hg : s.Binds name g) (other : String) (f : FrameId) :
    (s.define g name v).bound? f other = if f = g ∧ other = name then some v else s.bound? f other := by
  obtain ⟨w, hw⟩ := Option.isSome_iff_exists.1 hg
  have hlt := lt_size_of_bound? hw
  rw [bound?_define]
  refine if_congr ⟨fun h => ⟨h.1, h.2.2⟩, fun h => ⟨h.1, h.1 ▸ hlt, h.2⟩⟩ rfl rfl

end Store

/-! ## What comes out of a history -/

namespace History

variable {n : Nat}

theorem size_store (h : History n) : h.store.size = n := by
  induction h with
  | start => rfl
  | new h ih | child h p ih => rw [store, Store.size_addFrame, ih]
  | define h f name v ih => rw [store, Store.size_define, ih]
  | assign h f name v ih =>
    rw [store]
    obtain ⟨-, hassign⟩ | ⟨g, w, -, hassign⟩ := h.store.assign_cases f name v
    · rw [hassign, Option.getD_none, ih]
    · rw [hassign, Option.getD_some, Store.size_define, ih]

theorem parent?_store (h : History n) : h.store.parent? = h.parent := by
  funext g
  induction h with
  | start => rfl
  | new h ih | child h p ih => rw [store, Store.parent?_addFrame, size_store, parent, ih]
  | define h f name v ih => rw [store, Store.parent?_define, parent, ih]
  | assign h f name v ih =>
    rw [store, parent, ← ih]
    obtain ⟨-, hassign⟩ | ⟨g, w, -, hassign⟩ := h.store.assign_cases f name v
    · rw [hassign, Option.getD_none]
    · rw [hassign, Option.getD_some, Store.parent?_define]

theorem parent_lt (h : History n) {g p : FrameId} (hp : h.parent g = some p) : p < g := by
  induction h with
  | start => cases hp
  | new h ih =>
    rw [parent] at hp
    split at hp
    · cases hp
    · exact ih hp
  | child h q ih =>
    rw [parent] at hp
    split at hp
    · next hg =>
      cases hp
      exact hg ▸ q.isLt
    · exact ih hp
  | define h f name v ih | assign h f name v ih => exact ih hp

theorem descends_store (h : History n) : h.store.Descends := by
  intro g p hp
  rw [parent?_store] at hp
  exact h.parent_lt hp

theorem bound?_new_store (h : History n) : h.new.store.bound? = h.store.bound? := by
  rw [store, Store.bound?_addFrame_of_empty none]

theorem bound?_child_store (h : History n) (p : Fin n) : (h.child p).store.bound? = h.store.bound? := by
  rw [store, Store.bound?_addFrame_of_empty (some p.val)]

theorem bound?_define_store (h : History n) (f : Fin n) (other : String) (v : Value) (g : FrameId) (name : String) :
    (h.define f other v).store.bound? g name = if g = f ∧ name = other then some v else h.store.bound? g name := by
  rw [store, Store.bound?_define, size_store]
  exact if_congr ⟨fun hg => ⟨hg.1, hg.2.2⟩, fun hg => ⟨hg.1, hg.1 ▸ f.isLt, hg.2⟩⟩ rfl rfl

/-- **Names are never lost, and only definitions add any.** -/
theorem binds_store (h : History n) (name : String) : h.store.Binds name = h.Defines name := by
  funext g
  induction h with
  | start => exact propext ⟨nofun, nofun⟩
  | new h ih => rw [Store.Binds, bound?_new_store, Defines, ← ih, Store.Binds]
  | child h p ih => rw [Store.Binds, bound?_child_store, Defines, ← ih, Store.Binds]
  | define h f other v ih =>
    rw [Store.Binds, bound?_define_store, Defines, ← ih, Store.Binds]
    split
    · next hg => exact propext ⟨fun _ => .inl hg, fun _ => rfl⟩
    · next hg => exact propext ⟨.inr, fun h => h.resolve_left hg⟩
  | assign h f other v ih =>
    rw [Store.Binds, store, Defines, ← ih, Store.Binds]
    obtain ⟨-, hassign⟩ | ⟨o, w, hr, hassign⟩ := h.store.assign_cases f other v
    · rw [hassign, Option.getD_none]
    · have howner := (Store.resolve_iff_nearest h.descends_store).1 hr
      rw [hassign, Option.getD_some, Store.bound?_define_of_binds howner.1.binds_target]
      split
      · next hg => exact propext ⟨fun _ => hg.1 ▸ hg.2 ▸ howner.1.binds_target, fun _ => rfl⟩
      · rfl

theorem sees_iff_nearest (h : History n) {name : String} {f g : FrameId} :
    Nearest h.store.parent? (h.store.Binds name) f g ↔ h.Sees name f g := by
  rw [parent?_store, binds_store, Sees]

/-- **An assignment gives a value to a name where it is seen.** -/
theorem bound?_assign_store (h : History n) (f : Fin n) (other : String) (v : Value) (g : FrameId) (name : String) :
    (h.Sees other f g ∧ name = other → (h.assign f other v).store.bound? g name = some v) ∧
      (¬(h.Sees other f g ∧ name = other) → (h.assign f other v).store.bound? g name = h.store.bound? g name) := by
  rw [store]
  obtain ⟨hr, hassign⟩ | ⟨o, w, hr, hassign⟩ := h.store.assign_cases f other v
  · rw [hassign, Option.getD_none]
    refine ⟨fun hg => ?_, fun _ => rfl⟩
    have hsome := (Store.lookup_isSome_iff_nearest h.descends_store).2 ⟨g, h.sees_iff_nearest.2 hg.1⟩
    rw [Store.lookup, hr] at hsome
    cases hsome
  · have howner := ((Store.resolve_iff_nearest h.descends_store).1 hr).1
    have hsees (g : FrameId) : h.Sees other f g ↔ g = o :=
      ⟨fun hg => (h.sees_iff_nearest.2 hg).unique howner, fun hg => hg ▸ h.sees_iff_nearest.1 howner⟩
    rw [hassign, Option.getD_some, Store.bound?_define_of_binds howner.binds_target, hsees]
    exact ⟨fun hg => if_pos hg, fun hg => if_neg hg⟩

/-- What is given to a name, on a condition, is what it is bound to then. -/
theorem given_iff {p : Prop} {before after : Option Value} {v w : Value} (given : p → after = some w)
    (kept : ¬p → after = before) :
    after = some v ↔ p ∧ v = w ∨ ¬p ∧ before = some v := by
  by_cases hp : p
  · rw [given hp, Option.some.injEq, eq_comm]
    exact ⟨fun hv => .inl ⟨hp, hv⟩, fun hv => hv.elim And.right fun hnot => absurd hp hnot.1⟩
  · rw [kept hp]
    exact ⟨fun hv => .inr ⟨hp, hv⟩, fun hv => hv.elim (fun hpos => absurd hpos.1 hp) And.right⟩

/-- **A frame binds a name to what it was given last.** -/
theorem bound?_store (h : History n) (g : FrameId) (name : String) (v : Value) :
    h.store.bound? g name = some v ↔ h.LastGiven g name v := by
  induction h with
  | start => exact ⟨nofun, nofun⟩
  | new h ih => rw [bound?_new_store, ih, LastGiven]
  | child h p ih => rw [bound?_child_store, ih, LastGiven]
  | define h f other w ih =>
    rw [LastGiven, ← ih]
    have hdefine := h.bound?_define_store f other w g name
    exact given_iff (fun hg => hdefine.trans (if_pos hg)) fun hg => hdefine.trans (if_neg hg)
  | assign h f other w ih =>
    rw [LastGiven, ← ih]
    exact given_iff (h.bound?_assign_store f other w g name).1 (h.bound?_assign_store f other w g name).2

theorem lookup_iff_sees (h : History n) {f : FrameId} {name : String} {v : Value} :
    h.store.lookup f name = some v ↔ ∃ g, h.Sees name f g ∧ h.store.bound? g name = some v :=
  (Store.lookup_iff_nearest h.descends_store).trans (exists_congr fun _ => and_congr_left' h.sees_iff_nearest)

theorem lookup_isSome_iff_sees (h : History n) {f : FrameId} {name : String} :
    (h.store.lookup f name).isSome ↔ ∃ g, h.Sees name f g :=
  (Store.lookup_isSome_iff_nearest h.descends_store).trans (exists_congr fun _ => h.sees_iff_nearest)

/-- Where names are seen in the same frames, and bound alike in those, they mean the same. -/
theorem lookup_congr {m : Nat} {h : History n} {h' : History m} {f : FrameId} {name : String}
    (hsees : ∀ g, h'.Sees name f g ↔ h.Sees name f g)
    (hbound : ∀ g, h.Sees name f g → h'.store.bound? g name = h.store.bound? g name) :
    h'.store.lookup f name = h.store.lookup f name := by
  refine Option.ext fun v => ?_
  rw [lookup_iff_sees, lookup_iff_sees]
  refine exists_congr fun g => ?_
  rw [hsees]
  exact and_congr_right fun hg => by rw [hbound g hg]

/-- A definition is seen where its frame is the nearest one that binds the name, and changes nothing else. -/
theorem sees_define (h : History n) {f : Fin n} {name other : String} {v : Value} {g o : FrameId}
    (hnot : ¬(other = name ∧ (h.define f name v).Sees name g f)) :
    (h.define f name v).Sees other g o ↔ h.Sees other g o := by
  by_cases hname : other = name
  · subst hname
    refine Nearest.iff_of_not (x := f.val) (fun y => ?_) fun hg => hnot ⟨rfl, hg⟩
    rw [Defines, and_iff_left rfl]
  · have hdefines : (h.define f name v).Defines other = h.Defines other := by
      funext y
      rw [Defines, or_iff_right fun hy => hname hy.2]
    rw [Sees, hdefines]
    rfl

theorem lookup_define (h : History n) (f : Fin n) (name : String) (v : Value) (g : FrameId) (other : String) :
    (other = name ∧ (h.define f name v).Sees name g f → (h.define f name v).store.lookup g other = some v) ∧
      (¬(other = name ∧ (h.define f name v).Sees name g f) →
        (h.define f name v).store.lookup g other = h.store.lookup g other) := by
  constructor
  · rintro ⟨rfl, hsees⟩
    refine (lookup_iff_sees _).2 ⟨f, hsees, ?_⟩
    rw [bound?_define_store, if_pos ⟨rfl, rfl⟩]
  · intro hnot
    refine lookup_congr (fun o => h.sees_define hnot) fun o ho => ?_
    rw [bound?_define_store, if_neg]
    rintro ⟨rfl, rfl⟩
    exact hnot ⟨rfl, (h.sees_define hnot).2 ho⟩

theorem lookup_assign (h : History n) (f : Fin n) (name : String) (v : Value) (g : FrameId) (other : String) :
    (other = name ∧ (∃ o, h.Sees name f o ∧ h.Sees name g o) → (h.assign f name v).store.lookup g other = some v) ∧
      (¬(other = name ∧ ∃ o, h.Sees name f o ∧ h.Sees name g o) →
        (h.assign f name v).store.lookup g other = h.store.lookup g other) := by
  constructor
  · rintro ⟨rfl, o, hf, hg⟩
    exact (lookup_iff_sees _).2 ⟨o, hg, (h.bound?_assign_store f other v o other).1 ⟨hf, rfl⟩⟩
  · intro hnot
    refine lookup_congr (fun o => Iff.rfl) fun o ho => (h.bound?_assign_store f name v o other).2 ?_
    rintro ⟨hf, rfl⟩
    exact hnot ⟨rfl, o, hf, ho⟩

end History

/-- **The nearest binding counts**, whatever is done with frames.  No frame comes up among its own parents, and the way
up from a frame comes to an end.  A name means what it was last given in the nearest frame in which it was ever defined,
and nothing if there is none.

A definition changes what a name means for those frames that have the frame of the definition for the nearest one then,
and nothing else.  An assignment is made exactly if the name means something where it is made from; it changes what the
name means for those frames that see it in the same frame, and nothing else.  If it is not made, nothing is changed at
all. -/
theorem nearest_binding_counts {n : Nat} (h : History n) :
    (h.store.Acyclic ∧ WellFounded fun p g => h.store.parent? g = some p) ∧
    (∀ f name, (∀ v, h.store.lookup f name = some v ↔ ∃ g, h.Sees name f g ∧ h.LastGiven g name v) ∧
      (h.store.lookup f name = none ↔ ¬∃ g, h.Sees name f g)) ∧
    (∀ (f : Fin n) (name : String) (v : Value) (g : FrameId) (other : String),
      let h' := h.define f name v
      (other = name ∧ h'.Sees name g f → h'.store.lookup g other = some v) ∧
        (¬(other = name ∧ h'.Sees name g f) → h'.store.lookup g other = h.store.lookup g other)) ∧
    ∀ (f : Fin n) (name : String) (v : Value),
      let h' := h.assign f name v
      ((h.store.assign f name v).isSome ↔ (h.store.lookup f name).isSome) ∧
      (∀ (g : FrameId) (other : String),
        (other = name ∧ (∃ o, h.Sees name f o ∧ h.Sees name g o) → h'.store.lookup g other = some v) ∧
          (¬(other = name ∧ ∃ o, h.Sees name f o ∧ h.Sees name g o) →
            h'.store.lookup g other = h.store.lookup g other)) ∧
      (h.store.lookup f name = none → h'.store = h.store) := by
  refine ⟨⟨Store.acyclic_of_lt h.descends_store, ?_⟩, fun f name => ⟨fun v => ?_, ?_⟩, fun f name v g other => ?_,
    fun f name v => ?_⟩
  · exact Subrelation.wf (fun {p g} hp => h.descends_store g p hp) Nat.lt_wfRel.wf
  · rw [h.lookup_iff_sees]
    exact exists_congr fun g => and_congr_right' (h.bound?_store g name v)
  · rw [← h.lookup_isSome_iff_sees, Option.not_isSome_iff_eq_none]
  · exact h.lookup_define f name v g other
  · refine ⟨?_, h.lookup_assign f name v, fun hnone => ?_⟩
    · rw [Store.assign, Store.lookup, Option.isSome_map, Option.isSome_map]
    · have hr : h.store.resolve name f = none := Option.map_eq_none_iff.1 hnone
      show (h.store.assign f name v).getD h.store = h.store
      rw [Store.assign, hr]
      rfl

end LispSession
