import LispSession.Proofs.Evaluation.Soundness
import LispSession.Proofs.Frames
/-!
# Parameter lists

A parameter list is a chain of symbols that ends in `nil` or in one more symbol, the name for all further arguments.  A
closure can be made of every such list and every body that is not empty, and of nothing else.  A call binds all names of
the list in a new frame: the last one to the list of all further arguments, and every other one to the argument at its
last place in the list (`closure_binds_what_it_lists`).
-/
namespace LispSession

/-- What a chain of pairs ends in. -/
def Value.ending : Value → Value
  | .pair _ _ cdr => cdr.ending
  | v => v

/-- The parameters are those that a value lists: its elements are the names, and it ends in the name for all further
arguments, or else in `nil`. -/
structure Parameters.ListedBy (ps : Parameters) (v : Value) : Prop where
  elements : v.elements = ps.required.map .sym
  ending : v.ending = ps.rest.elim .nil .sym

/-- How many arguments fit the parameters. -/
def Parameters.Fit (ps : Parameters) (count : Nat) : Prop :=
  match ps.rest with
  | none => count = ps.required.length
  | some _ => ps.required.length ≤ count

/-- A value stands where a name stands for the last time. -/
def StandsAtLast (names : List String) (values : List Value) (name : String) (v : Value) : Prop :=
  ∃ front back, names = front ++ name :: back ∧ name ∉ back ∧ values[front.length]? = some v

/-- What a call of a closure of frame `f` does to a store: there is one more frame, under `f`, and it binds the
parameters. -/
structure Store.Enters (s : Store) (ps : Parameters) (args : List Value) (f : FrameId) (s' : Store) : Prop where
  size : s'.size = s.size + 1
  kept : ∀ g < s.size, s'.frames[g]? = s.frames[g]?
  parent : s'.parent? s.size = some f
  names : ∀ x, (s'.bound? s.size x).isSome ↔ x ∈ ps.required ∨ ps.rest = some x
  further : ∀ r, ps.rest = some r → ∃ v, s'.bound? s.size r = some v ∧ v.toList? = some (args.drop ps.required.length)
  each : ∀ x v, ps.rest ≠ some x → (s'.bound? s.size x = some v ↔ StandsAtLast ps.required args x v)

/-! ## Reading a list of parameters -/

namespace Parameters

theorem listedBy_atom {ps : Parameters} {v : Value} (h : v.kind ≠ .pair) :
    ps.ListedBy v ↔ ps.required = [] ∧ v = ps.rest.elim .nil .sym := by
  have hatom : v.elements = [] ∧ v.ending = v := by
    cases v with
    | pair => exact absurd rfl h
    | _ => exact ⟨rfl, rfl⟩
  constructor
  · rintro ⟨helements, hending⟩
    exact ⟨List.map_eq_nil_iff.1 (helements.symm.trans hatom.1), hatom.2.symm.trans hending⟩
  · rintro ⟨hnames, hv⟩
    exact ⟨by rw [hatom.1, hnames, List.map_nil], hatom.2.trans hv⟩

theorem listedBy_pair {ps : Parameters} {l : Label} {car cdr : Value} :
    ps.ListedBy (.pair l car cdr) ↔
    ∃ name later, car = .sym name ∧ ps = ⟨name :: later, ps.rest⟩ ∧ ListedBy ⟨later, ps.rest⟩ cdr := by
  obtain ⟨names, rest⟩ := ps
  constructor
  · rintro ⟨helements, hending⟩
    cases names with
    | nil => cases helements
    | cons name later =>
      obtain ⟨hcar, hlater⟩ := List.cons.inj helements
      exact ⟨name, later, hcar, rfl, hlater, hending⟩
  · rintro ⟨name, later, rfl, heq, h⟩
    rw [heq]
    exact ⟨congrArg (Value.sym name :: ·) h.elements, h.ending⟩

theorem ofValueAfter_eq (reversed : List String) (v : Value) :
    ofValueAfter reversed v = (ofValue? v).map fun ps => ⟨reversed.reverse ++ ps.required, ps.rest⟩ := by
  unfold ofValue?
  induction v generalizing reversed with
  | pair l car cdr _ ih =>
    cases car with
    | sym name =>
      rw [ofValueAfter, ih, ofValueAfter, ih [name], Option.map_map]
      simp [Function.comp_def]
    | _ => rfl
  | _ => simp [ofValueAfter]

/-- **The parameters that are found are those that are listed.** -/
theorem ofValue?_iff {v : Value} {ps : Parameters} : ofValue? v = some ps ↔ ps.ListedBy v := by
  obtain ⟨names, rest⟩ := ps
  induction v generalizing names with
  | pair l car cdr _ ih =>
    rw [listedBy_pair, ofValue?]
    cases car with
    | sym name =>
      rw [ofValueAfter, ofValueAfter_eq, Option.map_eq_some_iff]
      constructor
      · rintro ⟨⟨later, rest'⟩, hlater, heq⟩
        obtain ⟨rfl, rfl⟩ := Parameters.mk.inj heq
        exact ⟨name, later, rfl, rfl, (ih later).1 hlater⟩
      · rintro ⟨name', later, hcar, heq, hlater⟩
        obtain ⟨rfl, -⟩ := Parameters.mk.inj heq
        exact ⟨⟨later, rest⟩, (ih later).2 hlater, by rw [Value.sym.inj hcar]; rfl⟩
    | _ =>
      constructor
      · intro h
        cases h
      · rintro ⟨_, _, hcar, -⟩
        cases hcar
  | _ =>
    rw [listedBy_atom]
    · cases rest <;> simp [ofValue?, ofValueAfter, eq_comm]
    · nofun

/-- What a closure can be made of. -/
theorem check_iff {params body : Value} {ps : Parameters} :
    check params body = .ok ps ↔ body.elements ≠ [] ∧ ps.ListedBy params := by
  rw [← ofValue?_iff, check]
  cases body.elements with
  | nil => exact ⟨nofun, fun h => absurd rfl h.1⟩
  | cons e es =>
    cases ofValue? params with
    | none => exact ⟨nofun, fun h => nomatch h.2⟩
    | some found => simp

theorem form_of_check_error {params body : Value} {what : Malformation} (h : check params body = .error what) :
    what.form = .lambda := by
  unfold check at h
  split at h
  · cases h
    rfl
  · split at h
    · cases h
    · cases h
      rfl

theorem exists_listedBy_iff {v : Value} :
    (∃ ps : Parameters, ps.ListedBy v) ↔
    (∀ x ∈ v.elements, x.kind = .symbol) ∧ (v.ending = .nil ∨ v.ending.kind = .symbol) := by
  constructor
  · rintro ⟨⟨names, rest⟩, helements, hending⟩
    refine ⟨fun x hx => ?_, ?_⟩
    · rw [helements] at hx
      obtain ⟨name, -, rfl⟩ := List.mem_map.1 hx
      rfl
    · rw [hending]
      cases rest with
      | none => exact .inl rfl
      | some r => exact .inr rfl
  · rintro ⟨helements, hending⟩
    have hnames : ∃ names : List String, v.elements = names.map .sym := by
      generalize v.elements = items at helements ⊢
      induction items with
      | nil => exact ⟨[], rfl⟩
      | cons x items ih =>
        rw [List.forall_mem_cons] at helements
        obtain ⟨name, rfl⟩ := Value.eq_sym_of_kind helements.1
        obtain ⟨names, rfl⟩ := ih helements.2
        exact ⟨name :: names, rfl⟩
    obtain ⟨names, hnames⟩ := hnames
    obtain hnil | hsym := hending
    · exact ⟨⟨names, none⟩, hnames, hnil⟩
    · obtain ⟨r, hr⟩ := Value.eq_sym_of_kind hsym
      exact ⟨⟨names, some r⟩, hnames, hr⟩

theorem accepts_iff {ps : Parameters} {count : Nat} : ps.arity.accepts count = true ↔ ps.Fit count := by
  unfold arity Fit
  cases ps.rest with
  | none => exact beq_iff_eq
  | some r => exact decide_eq_true_iff

theorem Fit.le {ps : Parameters} {count : Nat} (h : ps.Fit count) : ps.required.length ≤ count := by
  unfold Fit at h
  split at h
  · exact Nat.le_of_eq h.symm
  · exact h

end Parameters

/-! ## Binding parameters -/

/-- A name that is listed stands somewhere for the last time. -/
theorem exists_standsAtLast {names : List String} {values : List Value} {name : String}
    (hle : names.length ≤ values.length) (h : name ∈ names) : ∃ v, StandsAtLast names values name v := by
  obtain ⟨back, front, heq, hback⟩ := List.eq_append_cons_of_mem (List.mem_reverse.2 h)
  have hnames : names = front.reverse ++ name :: back.reverse := by
    rw [← List.reverse_reverse names, heq]
    simp
  have hlt : front.reverse.length < values.length := by
    rw [hnames, List.length_append, List.length_cons] at hle
    omega
  exact ⟨_, front.reverse, back.reverse, hnames, fun hmem => hback (List.mem_reverse.1 hmem),
    List.getElem?_eq_getElem hlt⟩

theorem StandsAtLast.mem {names : List String} {values : List Value} {name : String} {v : Value}
    (h : StandsAtLast names values name v) : name ∈ names := by
  obtain ⟨front, back, rfl, -⟩ := h
  exact List.mem_append_right front List.mem_cons_self

theorem standsAtLast_cons {names : List String} {values : List Value} {first name : String} {w v : Value} :
    StandsAtLast (first :: names) (w :: values) name v ↔
      StandsAtLast names values name v ∨ name ∉ names ∧ first = name ∧ w = v := by
  constructor
  · rintro ⟨_ | ⟨n, front⟩, back, heq, hback, hv⟩
    · obtain ⟨rfl, rfl⟩ := List.cons.inj heq
      exact .inr ⟨hback, rfl, Option.some.inj hv⟩
    · obtain ⟨rfl, rfl⟩ := List.cons.inj heq
      exact .inl ⟨front, back, rfl, hback, hv⟩
  · rintro (⟨front, back, rfl, hback, hv⟩ | ⟨hnot, rfl, rfl⟩)
    · exact ⟨first :: front, back, rfl, hback, hv⟩
    · exact ⟨[], names, rfl, hnot, rfl⟩

/-- Of definitions made one after the other, the last one of a name counts. -/
theorem Frame.get?_defineAll (name : String) (v : Value) : ∀ (names : List String) (values : List Value) (fr : Frame),
    names.length ≤ values.length →
      (((names.zip values).foldl (fun f (name, v) => f.define name v) fr).get? name = some v ↔
        StandsAtLast names values name v ∨ name ∉ names ∧ fr.get? name = some v)
  | [], values, fr, _ => by
    refine ⟨fun h => .inr ⟨List.not_mem_nil, h⟩, fun h => h.elim (fun hlast => ?_) And.right⟩
    exact absurd hlast.mem List.not_mem_nil
  | first :: names, w :: values, fr, hle => by
    rw [List.zip_cons_cons, List.foldl_cons, get?_defineAll name v names values _ (Nat.le_of_succ_le_succ hle),
      get?_define, standsAtLast_cons, or_assoc]
    refine or_congr_right ?_
    by_cases hname : name = first
    · simp [hname]
    · simp [hname, Ne.symm hname]

namespace Store

theorem toList?_chain (s : Store) (items : List Value) : (s.chain items .nil).1.toList? = some items := by
  suffices h : ∀ (todo : List Value) (rest : Value) (s : Store), (todo.foldl (fun (built : Value × Store) item =>
      (Value.pair built.2.freshLabel.1 item built.1, built.2.freshLabel.2)) (rest, s)).1.toList? =
          rest.toList?.map (todo.reverse ++ ·) by
    have hchain := h items.reverse .nil s
    rw [Value.toList?_nil, List.reverse_reverse, Option.map_some, List.append_nil] at hchain
    exact hchain
  intro todo
  induction todo with
  | nil => simp
  | cons item todo ih =>
    intro rest s
    rw [List.foldl_cons, ih, Value.toList?_pair]
    simp [Option.map_map, Function.comp_def]

/-- A store with one more frame under `f`, which binds what the parameters ask for. -/
theorem Enters.of_addFrame {s : Store} {ps : Parameters} {args : List Value} {f : FrameId} (next : Label) {fr : Frame}
    (hparent : fr.parent = some f) (hnames : ∀ x, (fr.get? x).isSome ↔ x ∈ ps.required ∨ ps.rest = some x)
    (hfurther : ∀ r, ps.rest = some r → ∃ v, fr.get? r = some v ∧ v.toList? = some (args.drop ps.required.length))
    (heach : ∀ x v, ps.rest ≠ some x → (fr.get? x = some v ↔ StandsAtLast ps.required args x v)) :
    s.Enters ps args f ((s.labelledFrom next).addFrame fr).2 := by
  have hbound (x : String) : ((s.labelledFrom next).addFrame fr).2.bound? s.size x = fr.get? x :=
    (bound?_addFrame ..).trans (if_pos rfl)
  refine ⟨size_addFrame .., fun g hg => ?_, ?_, fun x => ?_, fun r hr => ?_, fun x v hx => ?_⟩
  · exact (frames_addFrame ..).trans (if_neg (Nat.ne_of_lt hg))
  · exact (parent?_addFrame ..).trans ((if_pos rfl).trans hparent)
  · rw [hbound, hnames]
  · rw [hbound]
    exact hfurther r hr
  · rw [hbound, heach x v hx]

/-- **Arguments that fit are bound** as the parameters ask for. -/
theorem bind_enters (s : Store) {ps : Parameters} {args : List Value} (f : FrameId) (hfit : ps.Fit args.length) :
    (s.bind ps args f).1 = s.size ∧ s.Enters ps args f (s.bind ps args f).2 := by
  let named := (ps.required.zip args).foldl (fun fr (name, v) => fr.define name v) ({ parent := some f } : Frame)
  have hparent : named.parent = some f := Frame.parent_defineAll _ _
  have hget (x : String) (v : Value) : named.get? x = some v ↔ StandsAtLast ps.required args x v := by
    refine (Frame.get?_defineAll x v ps.required args _ hfit.le).trans (or_iff_left ?_)
    rintro ⟨-, hnone⟩
    cases hnone
  have hsome (x : String) : (named.get? x).isSome ↔ x ∈ ps.required := by
    rw [Option.isSome_iff_exists]
    simp only [hget]
    exact ⟨fun ⟨v, hv⟩ => hv.mem, exists_standsAtLast hfit.le⟩
  unfold bind
  cases hrest : ps.rest with
  | none =>
    refine ⟨rfl, Enters.of_addFrame s.nextLabel hparent (fun x => ?_) (fun r hr => ?_) fun x v _ => hget x v⟩
    · rw [hsome, hrest]
      exact (or_iff_left nofun).symm
    · rw [hrest] at hr
      cases hr
  | some r =>
    have hchain : ∃ next, (s.chain (args.drop ps.required.length) .nil).2 = s.labelledFrom next :=
      (chain_spec (P := fun _ => True) (fun _ _ _ _ _ => trivial) s (fun _ _ => trivial) trivial).2
    obtain ⟨next, hnext⟩ := hchain
    dsimp only
    rw [hnext]
    refine ⟨rfl, Enters.of_addFrame next ((Frame.parent_define ..).trans hparent) (fun x => ?_)
      (fun r' hr' => ?_) fun x v hx => ?_⟩
    · rw [Frame.get?_define, hrest]
      split
      · next hx => exact ⟨fun _ => .inr (congrArg some hx.symm), fun _ => rfl⟩
      · next hx => exact (hsome x).trans (or_iff_left fun hr => hx (Option.some.inj hr).symm).symm
    · obtain rfl := Option.some.inj (hrest.symm.trans hr')
      exact ⟨_, (Frame.get?_define ..).trans (if_pos rfl), s.toList?_chain _⟩
    · rw [hrest] at hx
      rw [Frame.get?_define, if_neg fun heq => hx (congrArg some heq.symm)]
      exact hget x v

end Store

/-- **A closure binds what it lists.**  It is made of a list of symbols, which may end in one more symbol, and a body
that is not empty; of anything else it is not, and nothing happens but the error.  Called with a number of arguments
that fits, it goes on to its body in a new frame under its own one: the name for further arguments is bound to the list
of them, even if it is listed before as well, every other name to the argument at its last place in the list, and
nothing else is bound.  Called with another number it is not entered; the error says what it takes and what it got, and
nothing happens but that. -/
theorem closure_binds_what_it_lists (params body blame : Value) (name : Option String) (f : FrameId) :
    let wellFormed := body.elements ≠ [] ∧ (∀ x ∈ params.elements, x.kind = .symbol) ∧
      (params.ending = .nil ∨ params.ending.kind = .symbol)
    (∀ s d, (wellFormed → ∃ ps, ps.ListedBy params ∧
        makeClosure name params body f blame ⟨s, d⟩ = .ok (.closure s.nextLabel name ps body f) ⟨s.freshLabel.2, d⟩) ∧
      (¬wellFormed → ∃ what, what.form = .lambda ∧
        makeClosure name params body f blame ⟨s, d⟩ = Run.ended (.error ⟨.malformed what, blame⟩) ⟨s, d⟩)) ∧
    ∀ ps, ps.ListedBy params → ∀ (sub : Eval) (e : Value) (l : Label) (args : List Value) (s : Store) (d : Nat),
      (ps.Fit args.length → ∃ s', s.Enters ps args f s' ∧
        applyProcedure sub e (.closure l name ps body f) args ⟨s, d⟩ = evalBody sub s.size body.elements ⟨s', d⟩) ∧
      (¬ps.Fit args.length → applyProcedure sub e (.closure l name ps body f) args ⟨s, d⟩ =
        Run.ended (.error ⟨.unexpectedArity (name.getD "lambda") ps.arity args.length, e⟩) ⟨s, d⟩) := by
  intro wellFormed
  refine ⟨fun s d => ⟨?_, ?_⟩, fun ps _ sub e l args s d => ⟨fun hfit => ?_, fun hfit => ?_⟩⟩
  · rintro ⟨hbody, hparams⟩
    obtain ⟨ps, hps⟩ := Parameters.exists_listedBy_iff.2 hparams
    refine ⟨ps, hps, ?_⟩
    rw [makeClosure, Parameters.check_iff.2 ⟨hbody, hps⟩]
    rfl
  · intro hnot
    unfold makeClosure
    cases hcheck : Parameters.check params body with
    | ok ps =>
      obtain ⟨hbody, hps⟩ := Parameters.check_iff.1 hcheck
      exact absurd ⟨hbody, Parameters.exists_listedBy_iff.1 ⟨ps, hps⟩⟩ hnot
    | error what =>
      exact ⟨what, Parameters.form_of_check_error hcheck, rfl⟩
  · obtain ⟨hframe, henters⟩ := s.bind_enters f hfit
    refine ⟨_, henters, ?_⟩
    unfold applyProcedure Parameters.mismatch?
    dsimp only
    rw [if_pos (Parameters.accepts_iff.2 hfit), ← hframe]
    rfl
  · unfold applyProcedure Parameters.mismatch?
    dsimp only
    rw [if_neg (fun haccepts => hfit (Parameters.accepts_iff.1 haccepts))]
    rfl

/-- A name that is listed twice is bound to the later argument, and one that is listed last to the list of further
ones. -/
example : let s := (Store.bind {} ⟨["a", "b", "a"], some "b"⟩ [.bool true, .sym "x", .bool false, .sym "y"] 0).2
    s.bound? 0 "a" = some (.bool false) ∧ s.bound? 0 "b" = some (.pair 0 (.sym "y") .nil) := ⟨rfl, rfl⟩

end LispSession
