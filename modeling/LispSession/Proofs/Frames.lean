import LispSession.Interpreter
/-!
# What frames bind

A store is seen in two ways: what a frame binds a name to (`Store.bound?`), and which frame its parent is
(`Store.parent?`).  This module says what each operation on a store does to the two; that a name is resolved by
following parents, and the frame it is resolved in binds it; and what the frame of a call binds.  Nothing outside of it
looks into the list of bindings or the array of frames, but to say that a frame is the very same as before.
-/
namespace LispSession

/-! ## Frames -/

namespace Frame

theorem lookup_rebound (v : Value) {name other : String} (h : other ≠ name) (bindings : List (String × Value)) :
    (bindings.map fun b => if b.1 == name then (b.1, v) else b).lookup other = bindings.lookup other := by
  induction bindings with
  | nil => rfl
  | cons b later ih =>
    rw [List.map_cons]
    by_cases hb : b.1 = name
    · have hne : (other == b.1) = false := beq_eq_false_iff_ne.2 (hb ▸ h)
      rw [if_pos (beq_iff_eq.2 hb), List.lookup_cons, List.lookup_cons, hne, ih]
    · rw [if_neg (by simpa using hb), List.lookup_cons, List.lookup_cons, ih]

theorem lookup_rebound_self (v : Value) {name : String} {bindings : List (String × Value)}
    (h : bindings.any (·.1 == name) = true) :
    (bindings.map fun b => if b.1 == name then (b.1, v) else b).lookup name = some v := by
  induction bindings with
  | nil => cases h
  | cons b later ih =>
    rw [List.map_cons]
    by_cases hb : b.1 = name
    · rw [if_pos (beq_iff_eq.2 hb), List.lookup_cons, beq_iff_eq.2 hb.symm]
    · have hlater : later.any (·.1 == name) = true := by simpa [hb] using h
      rw [if_neg (by simpa using hb), List.lookup_cons, beq_eq_false_iff_ne.2 (Ne.symm hb), ih hlater]

/-- A definition changes what one name is bound to. -/
theorem get?_define (f : Frame) (name : String) (v : Value) (other : String) :
    (f.define name v).get? other = if other = name then some v else f.get? other := by
  unfold define
  split
  · next h =>
    by_cases hname : other = name
    · rw [if_pos hname, hname]
      exact lookup_rebound_self v h
    · rw [if_neg hname]
      exact lookup_rebound v hname f.bindings
  · by_cases hname : other = name
    · rw [if_pos hname, hname, get?, List.lookup_cons, beq_self_eq_true]
    · rw [if_neg hname, get?, List.lookup_cons, beq_eq_false_iff_ne.2 hname]
      rfl

@[simp] theorem parent_define (f : Frame) (name : String) (v : Value) : (f.define name v).parent = f.parent := by
  unfold define
  split <;> rfl

/-- All that a frame binds has a property. -/
def Binds (P : Value → Prop) (f : Frame) : Prop := ∀ name v, f.get? name = some v → P v

variable {P : Value → Prop}

theorem binds_empty (parent : Option FrameId) : Binds P { parent := parent } := nofun

theorem Binds.define {f : Frame} (h : f.Binds P) (name : String) {v : Value} (hv : P v) :
    (f.define name v).Binds P := by
  intro other w hw
  rw [get?_define] at hw
  split at hw
  · cases hw
    exact hv
  · exact h other w hw

theorem Binds.defineAll {f : Frame} (h : f.Binds P) (pairs : List (String × Value)) (hv : ∀ b ∈ pairs, P b.2) :
    (pairs.foldl (fun f (name, v) => f.define name v) f).Binds P := by
  induction pairs generalizing f with
  | nil => exact h
  | cons b later ih =>
    rw [List.forall_mem_cons] at hv
    exact ih (h.define b.1 hv.1) hv.2

theorem parent_defineAll (f : Frame) (pairs : List (String × Value)) :
    (pairs.foldl (fun f (name, v) => f.define name v) f).parent = f.parent := by
  induction pairs generalizing f with
  | nil => rfl
  | cons b later ih => exact (ih _).trans (f.parent_define b.1 b.2)

end Frame

/-! ## Stores -/

namespace Store

/-- How many frames there are. -/
def size (s : Store) : Nat := s.frames.size

/-- What a frame itself binds a name to. -/
def bound? (s : Store) (g : FrameId) (name : String) : Option Value := s.frames[g]?.bind (·.get? name)

def parent? (s : Store) (g : FrameId) : Option FrameId := s.frames[g]?.bind (·.parent)

variable {s : Store}

theorem lt_size_of_bound? {g : FrameId} {name : String} {v : Value} (h : s.bound? g name = some v) : g < s.size := by
  obtain ⟨fr, hfr, -⟩ := Option.bind_eq_some_iff.1 h
  exact (Array.getElem?_eq_some_iff.1 hfr).1

theorem lt_size_of_parent? {g p : FrameId} (h : s.parent? g = some p) : g < s.size := by
  obtain ⟨fr, hfr, -⟩ := Option.bind_eq_some_iff.1 h
  exact (Array.getElem?_eq_some_iff.1 hfr).1

section Define

variable (s) (f : FrameId) (name : String) (v : Value)

@[simp] theorem size_define : (s.define f name v).size = s.size := Array.size_modify

theorem frames_define (g : FrameId) :
    (s.define f name v).frames[g]? = if f = g then s.frames[g]?.map (·.define name v) else s.frames[g]? :=
  Array.getElem?_modify

theorem bound?_define (g : FrameId) (other : String) : (s.define f name v).bound? g other =
    if g = f ∧ g < s.size ∧ other = name then some v else s.bound? g other := by
  unfold bound?
  rw [frames_define]
  by_cases hg : f = g
  · subst hg
    rw [if_pos rfl]
    by_cases hlt : f < s.size
    · rw [Array.getElem?_eq_getElem hlt, Option.map_some, Option.bind_some, Frame.get?_define]
      simp [hlt]
    · rw [Array.getElem?_eq_none (Nat.le_of_not_lt hlt)]
      simp [hlt]
  · rw [if_neg hg, if_neg fun h => hg h.1.symm]

@[simp] theorem parent?_define (g : FrameId) : (s.define f name v).parent? g = s.parent? g := by
  unfold parent?
  rw [frames_define]
  split
  · rw [Option.bind_map]
    exact Option.bind_congr fun fr _ => fr.parent_define name v
  · rfl

end Define

section AddFrame

variable (s) (fr : Frame)

@[simp] theorem size_addFrame : (s.addFrame fr).2.size = s.size + 1 := Array.size_push fr

theorem frames_addFrame (g : FrameId) : (s.addFrame fr).2.frames[g]? = if g = s.size then some fr else s.frames[g]? :=
  Array.getElem?_push

theorem bound?_addFrame (g : FrameId) (name : String) :
    (s.addFrame fr).2.bound? g name = if g = s.size then fr.get? name else s.bound? g name := by
  unfold bound?
  rw [frames_addFrame]
  split <;> rfl

theorem parent?_addFrame (g : FrameId) :
    (s.addFrame fr).2.parent? g = if g = s.size then fr.parent else s.parent? g := by
  unfold parent?
  rw [frames_addFrame]
  split <;> rfl

end AddFrame

/-! ## Labels

Labels are given out apart from frames: what a store binds does not depend on them. -/

/-- The same frames, with labels from `next` on. -/
def labelledFrom (s : Store) (next : Label) : Store := { s with nextLabel := next }

/-- New pairs are made of the items and the tail, and take labels only. -/
theorem chain_spec {P : Value → Prop} (pair : ∀ label car cdr, P car → P cdr → P (.pair label car cdr)) (s : Store)
    {items : List Value} {tail : Value} (hitems : ∀ v ∈ items, P v) (htail : P tail) :
    P (s.chain items tail).1 ∧ ∃ next, (s.chain items tail).2 = s.labelledFrom next := by
  have hitems : ∀ v ∈ items.reverse, P v := fun v hv => hitems v (List.mem_reverse.1 hv)
  suffices h : ∀ (todo : List Value) (rest : Value) (next : Label), (∀ v ∈ todo, P v) → P rest →
      let made := todo.foldl (fun built item => (Value.pair built.2.freshLabel.1 item built.1, built.2.freshLabel.2))
        (rest, s.labelledFrom next)
      P made.1 ∧ ∃ next, made.2 = s.labelledFrom next from h items.reverse tail s.nextLabel hitems htail
  intro todo
  induction todo with
  | nil => exact fun rest next _ hrest => ⟨hrest, next, rfl⟩
  | cons v todo ih =>
    intro rest next htodo hrest
    rw [List.forall_mem_cons] at htodo
    exact ih _ (next + 1) htodo.2 (pair next v rest htodo.1 hrest)

/-- **The frame of a call** is new, is under the frame of the closure, and binds arguments and a list of arguments. -/
theorem bind_spec {P : Value → Prop} (nil : P .nil) (pair : ∀ label car cdr, P car → P cdr → P (.pair label car cdr))
    (s : Store) (params : Parameters) {args : List Value} (hargs : ∀ v ∈ args, P v) (parent : FrameId) :
    ∃ next fr, s.bind params args parent = (s.labelledFrom next).addFrame fr ∧ fr.parent = some parent ∧
      fr.Binds P := by
  have hzip : ∀ b ∈ params.required.zip args, P b.2 := fun b hb => hargs _ (List.of_mem_zip hb).2
  have hbinds := (Frame.binds_empty (P := P) (some parent)).defineAll _ hzip
  have hparent := Frame.parent_defineAll { parent := some parent } (params.required.zip args)
  unfold bind
  cases params.rest with
  | none => exact ⟨s.nextLabel, _, rfl, hparent, hbinds⟩
  | some rest =>
    have hrest : ∀ v ∈ args.drop params.required.length, P v := fun v hv => hargs v (List.mem_of_mem_drop hv)
    obtain ⟨hfurther, next, hnext⟩ := chain_spec pair s hrest nil
    dsimp only
    rw [hnext]
    exact ⟨next, _, rfl, (Frame.parent_define ..).trans hparent, hbinds.define rest hfurther⟩

/-- **The frame of the globals** has no parent, and binds the primitives and the list of the script's arguments. -/
theorem addGlobals_spec {P : Value → Prop} (prim : ∀ p, P (.prim p)) (s : Store) (args : List String)
    (hargs : P (s.place (.ofList (args.map .str))).1) :
    ∃ next fr, s.addGlobals args = (s.labelledFrom next).addFrame fr ∧ fr.parent = none ∧ fr.Binds P := by
  let pairs : List (String × Value) := Primitive.all.map fun p => (p.name, .prim p)
  have hpairs : ∀ b ∈ pairs, P b.2 := by
    intro b hb
    obtain ⟨p, -, rfl⟩ := List.mem_map.1 hb
    exact prim p
  have hbinds := ((Frame.binds_empty none).defineAll pairs hpairs).define "*args*" hargs
  have hparent := Frame.parent_defineAll {} pairs
  rw [List.foldl_map] at hbinds hparent
  exact ⟨_, _, rfl, (Frame.parent_define ..).trans hparent, hbinds⟩

/-! ## Resolving names -/

/-- A name is resolved where it is bound, or else from the parent on. -/
theorem resolve_eq (s : Store) (name : String) (g : FrameId) : s.resolve name g =
    match s.bound? g name with
    | some v => some (g, v)
    | none =>
      match s.parent? g with
      | some p => if p < g then s.resolve name p else none
      | none => none := by
  rw [resolve, bound?, parent?]
  cases s.frames[g]? with
  | none => rfl
  | some fr =>
    dsimp only [Option.bind_some]
    cases fr.get? name with
    | some v => rfl
    | none => cases fr.parent <;> rfl

/-- **A resolved name is bound in a frame up the parents**: whatever holds of a frame and of the parents of such frames
holds of it. -/
theorem resolve_spec {P : FrameId → Prop} (up : ∀ g p, P g → s.parent? g = some p → P p) {name : String}
    {f g : FrameId} {v : Value} (hf : P f) (h : s.resolve name f = some (g, v)) : P g ∧ s.bound? g name = some v := by
  induction f using Nat.strongRecOn with
  | ind f ih =>
    rw [resolve_eq] at h
    split at h
    · next hbound =>
      cases h
      exact ⟨hf, hbound⟩
    · split at h
      · next p hparent =>
        split at h
        · next hlt => exact ih p hlt (up f p hf hparent) h
        · cases h
      · cases h

/-- A name that resolves goes on to resolve where no name is lost and parents stay. -/
theorem resolve_isSome_mono {s' : Store} (hnames : ∀ g name, (s.bound? g name).isSome → (s'.bound? g name).isSome)
    (hparents : ∀ g p, s.parent? g = some p → s'.parent? g = some p) {name : String} {g : FrameId}
    (h : (s.resolve name g).isSome) : (s'.resolve name g).isSome := by
  induction g using Nat.strongRecOn with
  | ind g ih =>
    rw [resolve_eq] at h ⊢
    cases hbound' : s'.bound? g name with
    | some v => rfl
    | none =>
      have hbound : s.bound? g name = none := by
        have hlost := hnames g name
        rw [hbound'] at hlost
        exact Option.not_isSome_iff_eq_none.1 fun hsome => by simpa using hlost hsome
      rw [hbound] at h
      dsimp only at h ⊢
      cases hparent : s.parent? g with
      | none => rw [hparent] at h; cases h
      | some p =>
        rw [hparent] at h
        rw [hparents g p hparent]
        dsimp only at h ⊢
        split
        · next hlt =>
          rw [if_pos hlt] at h
          exact ih p hlt h
        · next hlt =>
          rw [if_neg hlt] at h
          cases h

/-! ## Stores that keep to themselves

The frames and the values in question may be more when there are more frames. -/

/-- The frames in question bind values in question only, and their parents are in question as well. -/
structure Guards (frame : Nat → FrameId → Prop) (value : Nat → Value → Prop) (s : Store) : Prop where
  bound : ∀ g name v, frame s.size g → s.bound? g name = some v → value s.size v
  parent : ∀ g p, frame s.size g → s.parent? g = some p → frame s.size p

namespace Guards

variable {frame : Nat → FrameId → Prop} {value : Nat → Value → Prop}

theorem labelledFrom (h : s.Guards frame value) (next : Label) : (s.labelledFrom next).Guards frame value :=
  ⟨h.bound, h.parent⟩

theorem define (h : s.Guards frame value) (f : FrameId) (name : String) {v : Value} (hv : value s.size v) :
    (s.define f name v).Guards frame value where
  bound g other w hg hw := by
    rw [size_define] at hg ⊢
    rw [bound?_define] at hw
    split at hw
    · cases hw
      exact hv
    · exact h.bound g other w hg hw
  parent g p hg hp := by
    rw [size_define] at hg ⊢
    rw [parent?_define] at hp
    exact h.parent g p hg hp

/-- A new frame is the only one that may come into question. -/
theorem addFrame (h : s.Guards frame value) (frame_mono : ∀ {n g}, frame n g → frame (n + 1) g)
    (frame_new : ∀ {n g}, frame (n + 1) g → g ≠ n → frame n g) (value_mono : ∀ {n v}, value n v → value (n + 1) v)
    {p : FrameId} {fr : Frame} (hp : frame s.size p) (hparent : fr.parent = some p) (hbinds : fr.Binds (value s.size)) :
    (s.addFrame fr).2.Guards frame value where
  bound g name v hg hv := by
    rw [size_addFrame] at hg ⊢
    rw [bound?_addFrame] at hv
    split at hv
    · exact value_mono (hbinds name v hv)
    · next hne => exact value_mono (h.bound g name v (frame_new hg hne) hv)
  parent g q hg hq := by
    rw [size_addFrame] at hg ⊢
    rw [parent?_addFrame] at hq
    split at hq
    · cases hparent.symm.trans hq
      exact frame_mono hp
    · next hne => exact frame_mono (h.parent g q (frame_new hg hne) hq)

end Guards

end Store

/-- **At the start there is the frame of the globals only.** -/
theorem Interpreter.start_spec {P : Value → Prop} (prim : ∀ p, P (.prim p)) (args : List String)
    (hargs : P ((Datum.ofList (args.map .str)).label 0).1) (limit : Nat) :
    (start args limit).globals < (start args limit).machine.store.size ∧
    (∀ g, (start args limit).machine.store.parent? g = none) ∧
    ∀ g name v, (start args limit).machine.store.bound? g name = some v → P v := by
  obtain ⟨next, fr, hadd, hparent, hbinds⟩ := Store.addGlobals_spec prim {} args hargs
  have hstore : (start args limit).machine.store = ((Store.labelledFrom {} next).addFrame fr).2 :=
    congrArg Prod.snd hadd
  have hglobals : (start args limit).globals = 0 := congrArg Prod.fst hadd
  rw [hstore, hglobals, Store.size_addFrame]
  refine ⟨Nat.succ_pos _, fun g => ?_, fun g name v hv => ?_⟩
  · rw [Store.parent?_addFrame]
    split
    · exact hparent
    · rfl
  · rw [Store.bound?_addFrame] at hv
    split at hv
    · exact hbinds name v hv
    · cases hv

end LispSession
