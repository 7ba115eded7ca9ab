import LispSession.Proofs.Evaluation.DepthLimit
import LispSession.Proofs.Frames
import LispSession.Proofs.Printed.Notation
/-!
# What evaluation keeps to

Evaluation works in frames, handles values and evaluates expressions.  A *discipline* says which ones it may, and what
the store has to be like; its laws say that the discipline is kept by each single thing evaluation does: taking a form
apart, looking a name up, binding one, making a closure and entering one.  Then it is kept by every evaluation, whatever
it comes to (`evaluate_keeps`).  The induction is done here, once; an invariant of evaluation is a discipline and the
proofs of its laws.

What a discipline allows may depend on how many frames there are, and more frames never allow less.

A discipline may allow no closures.  Then each round of evaluation goes on with an expression that is nested less deep,
so evaluation comes to an end, and it needs no more levels than the expression has (`Discipline.closureless`).
-/
namespace LispSession

/-- A form that makes a closure, and the name, the parameters and the body that it gives to it. -/
inductive ClosureForm : Value → Option String → Value → Value → Prop
  | lambda {l l₁ : Label} {params body : Value} :
    ClosureForm (.pair l (.sym "lambda") (.pair l₁ params body)) none params body
  | define {l l₁ l₂ : Label} {name : String} {params body : Value} :
    ClosureForm (.pair l (.sym "define") (.pair l₁ (.pair l₂ (.sym name) params) body)) (some name) params body

/-- What evaluation is to keep to. -/
structure Discipline where
  /-- The frames to work in, out of so many. -/
  frame : Nat → FrameId → Prop
  /-- The values to handle. -/
  value : Nat → Value → Prop
  /-- The expressions to evaluate in a frame. -/
  code : Nat → FrameId → Value → Prop
  /-- What stores are like. -/
  store : Store → Prop
  /-- No value is a closure. -/
  closureless : Prop
  -- More frames allow no less.
  value_mono {n m : Nat} {v : Value} : n ≤ m → value n v → value m v
  code_mono {n m : Nat} {f : FrameId} {e : Value} : n ≤ m → code n f e → code m f e
  -- Expressions are taken apart, and may be data.
  frame_of_code {n : Nat} {f : FrameId} {e : Value} : code n f e → frame n f
  value_of_code {n : Nat} {f : FrameId} {e : Value} : code n f e → value n e
  code_element {n : Nat} {f : FrameId} {e x : Value} : code n f e → x ∈ e.elements → code n f x
  code_nil {n : Nat} {f : FrameId} {e : Value} : code n f e → code n f .nil
  -- Values are put together and taken apart.
  value_nil {n : Nat} : value n .nil
  value_bool {n : Nat} (b : Bool) : value n (.bool b)
  value_num {n : Nat} (x : Float) : value n (.num x)
  value_pair {n : Nat} {l : Label} {car cdr : Value} : value n (.pair l car cdr) ↔ value n car ∧ value n cdr
  -- Closures are made and entered.
  value_closure {n : Nat} {f : FrameId} {e : Value} {name : Option String} {params body : Value}
    {ps : Parameters} (l : Label) :
    code n f e → ClosureForm e name params body → body.elements ≠ [] → Parameters.ofValue? params = some ps →
      value n (.closure l name ps body f)
  frame_of_closure {n : Nat} {l : Label} {name : Option String} {ps : Parameters} {body : Value} {g : FrameId} :
    value n (.closure l name ps body g) → frame n g
  code_body {s : Store} {l : Label} {name : Option String} {ps : Parameters} {body x : Value} {g : FrameId} :
    store s → value s.size (.closure l name ps body g) → x ∈ body.elements → code (s.size + 1) s.size x
  code_enter {s : Store} {f : FrameId} {e : Value} : store s → code s.size f e → code (s.size + 1) s.size e
  not_closure {n : Nat} {l : Label} {name : Option String} {ps : Parameters} {body : Value} {g : FrameId} :
    closureless → ¬value n (.closure l name ps body g)
  -- Stores are read and changed.
  store_bound {s : Store} {g : FrameId} {name : String} {v : Value} :
    store s → frame s.size g → s.bound? g name = some v → value s.size v
  store_parent {s : Store} {g p : FrameId} : store s → frame s.size g → s.parent? g = some p → frame s.size p
  store_labelled {s : Store} (next : Label) : store s → store (s.labelledFrom next)
  store_define {s : Store} {f : FrameId} {l : Label} {rest v : Value} (name : String) :
    store s → code s.size f (.pair l (.sym "define") rest) → value s.size v → store (s.define f name v)
  store_assign {s : Store} {g : FrameId} {name : String} {v w : Value} :
    store s → frame s.size g → s.bound? g name = some w → value s.size v → store (s.define g name v)
  store_addFrame {s : Store} {p : FrameId} {fr : Frame} :
    store s → frame s.size p → fr.parent = some p → fr.Binds (value s.size) → store (s.addFrame fr).2

/-- What an outcome hands on: its value, or the expression to blame. -/
def handedOn : Except Raised Value → Value
  | .ok v => v
  | .error r => r.blame

/-! ## The elements of an expression -/

namespace Value

theorem depth_lt_of_mem_elements {v x : Value} (h : x ∈ v.elements) : x.depth < v.depth := by
  induction v with
  | pair l car cdr _ ih =>
    rw [elements] at h
    rw [depth, lt_max_iff]
    obtain rfl | hx := List.mem_cons.1 h
    · exact .inl (Nat.lt_succ_self _)
    · exact .inr (ih hx)
  | _ => cases h

/-- What pairs share with their components, values share with their elements. -/
theorem of_mem_elements {P : Value → Prop} (parts : ∀ {l car cdr}, P (.pair l car cdr) → P car ∧ P cdr)
    {v x : Value} (h : P v) (hx : x ∈ v.elements) : P x := by
  induction v with
  | pair l car cdr _ ih =>
    rw [elements] at hx
    obtain rfl | hx := List.mem_cons.1 hx
    · exact (parts h).1
    · exact ih (parts h).2 hx
  | _ => cases hx

end Value

/-- Whether a symbol stands in a datum. -/
def Datum.mentions (name : String) : Datum → Bool
  | .sym other => other == name
  | .pair car cdr => car.mentions name || cdr.mentions name
  | _ => false

theorem Value.mentions_element {v x : Value} {name : String} (h : v.content.mentions name = false)
    (hx : x ∈ v.elements) :
    x.content.mentions name = false :=
  of_mem_elements (P := fun v => v.content.mentions name = false) Bool.or_eq_false_iff.1 h hx

namespace Run

/-- The result of a computation, whatever it is. -/
def back {α : Type} : Except Halt α → Machine → EStateM.Result Halt Machine α
  | .ok a, m => .ok a m
  | .error halt, m => .error halt m

theorem ended_eq_back {α : Type} (o : Except Raised α) (m : Machine) : ended o m = back (o.mapError .raised) m := by
  cases o <;> rfl

theorem back_inj {α : Type} {r r' : Except Halt α} {m m' : Machine} (h : back r m = back r' m') : r = r' ∧ m = m' := by
  cases r <;> cases r' <;> cases h <;> exact ⟨rfl, rfl⟩

end Run

namespace Discipline

variable {D : Discipline} {α β : Type} {d : Nat} {s : Store}

/-! ## Computations that keep to it -/

/-- How a computation may end.  An expression that is to blame may be handled like any value; there is always a meaning;
and if there are no closures there is always an end, and a limit on nesting is not in the way. -/
def Meets (D : Discipline) (Q : Nat → α → Prop) (n : Nat) : Except Halt α → Prop
  | .ok a => Q n a
  | .error (.raised r) => D.value n r.blame ∧ (D.closureless → ∀ k, r.error ≠ .recursionLimit k)
  | .error .stuck => False
  | .error .unfinished => ¬D.closureless

theorem Meets.of_error {Q : Nat → α → Prop} {R : Nat → β → Prop} {n : Nat} {halt : Halt}
    (h : D.Meets Q n (.error halt)) :
    D.Meets R n (.error halt) := by
  cases halt <;> exact h

/-- From level `d` a computation comes back to it, with a store and a result as they should be. -/
def Keeps (D : Discipline) (d : Nat) (s : Store) (x : Run α) (Q : Nat → α → Prop) : Prop :=
  ∃ r s', x ⟨s, d⟩ = Run.back r ⟨s', d⟩ ∧ s.size ≤ s'.size ∧ D.store s' ∧ D.Meets Q s'.size r

namespace Keeps

variable {Q : Nat → α → Prop} {R : Nat → β → Prop}

theorem pure (hs : D.store s) {a : α} (h : Q s.size a) : D.Keeps d s (Pure.pure a) Q :=
  ⟨.ok a, s, rfl, Nat.le_refl _, hs, h⟩

theorem raise (hs : D.store s) {blame : Value} (hblame : D.value s.size blame) (error : EvalError)
    (h : ∀ k, error ≠ .recursionLimit k) : D.Keeps d s (Run.raise error blame) Q :=
  ⟨.error (.raised ⟨error, blame⟩), s, rfl, Nat.le_refl _, hs, hblame, fun _ => h⟩

theorem bind {x : Run α} {k : α → Run β} (hx : D.Keeps d s x Q)
    (hk : ∀ a s', s.size ≤ s'.size → D.store s' → Q s'.size a → D.Keeps d s' (k a) R) : D.Keeps d s (x >>= k) R := by
  obtain ⟨r, s₁, hr, hle, hs₁, hmeets⟩ := hx
  cases r with
  | ok a =>
    obtain ⟨r', s', hr', hle', hs', hmeets'⟩ := hk a s₁ hle hs₁ hmeets
    exact ⟨r', s', (Run.bind_of_ok hr).trans hr', Nat.le_trans hle hle', hs', hmeets'⟩
  | error halt => exact ⟨.error halt, s₁, Run.bind_of_error hr, hle, hs₁, hmeets.of_error⟩

theorem withStore {f : Store → α × Store} {k : α → Run β} (hle : s.size ≤ (f s).2.size)
    (h : D.Keeps d (f s).2 (k (f s).1) R) :
    D.Keeps d s (Run.withStore f >>= k) R := by
  obtain ⟨r, s', hr, hle', hs', hmeets⟩ := h
  exact ⟨r, s', (Run.bind_of_ok rfl).trans hr, Nat.le_trans hle hle', hs', hmeets⟩

theorem get {k : Machine → Run β} (h : D.Keeps d s (k ⟨s, d⟩) R) : D.Keeps d s (MonadState.get >>= k) R := h

end Keeps

/-! ## One round -/

/-- An expression to be evaluated on the way: where there are no closures, it is nested less deep than what it is a part
of. -/
def Part (D : Discipline) (depth n : Nat) (f : FrameId) (x : Value) : Prop :=
  D.code n f x ∧ (D.closureless → x.depth < depth)

/-- What a round may go on with. -/
def Goes (D : Discipline) (depth n : Nat) : Next → Prop
  | .value v => D.value n v
  | .tail f x => D.Part depth n f x

/-- Parts are evaluated as they should be. -/
def Handles (D : Discipline) (d depth : Nat) (sub : Eval) : Prop :=
  ∀ s f x, D.store s → D.Part depth s.size f x → D.Keeps d s (sub f x) D.value

theorem Part.mono {depth n m : Nat} {f : FrameId} {x : Value} (h : D.Part depth n f x) (hle : n ≤ m) :
    D.Part depth m f x :=
  ⟨D.code_mono hle h.1, h.2⟩

theorem part_of_element {n : Nat} {f : FrameId} {e x : Value} (h : D.code n f e) (hx : x ∈ e.elements) :
    D.Part e.depth n f x :=
  ⟨D.code_element h hx, fun _ => Value.depth_lt_of_mem_elements hx⟩

theorem Part.element {depth n : Nat} {f : FrameId} {e x : Value} (h : D.Part depth n f e) (hx : x ∈ e.elements) :
    D.Part depth n f x :=
  ⟨D.code_element h.1 hx, fun hc => Nat.lt_trans (Value.depth_lt_of_mem_elements hx) (h.2 hc)⟩

section Round

variable {depth : Nat} {sub : Eval} {f : FrameId}

theorem evalBody_keeps (hsub : D.Handles d depth sub) : ∀ (es : List Value) {s : Store}, D.store s →
    (∀ x ∈ es, D.Part depth s.size f x) → D.Keeps d s (evalBody sub f es) (D.Goes depth)
  | [], _, hs, _ => .pure hs D.value_nil
  | [x], _, hs, h => .pure hs (h x List.mem_cons_self)
  | x :: y :: es, s, hs, h => by
    rw [List.forall_mem_cons] at h
    refine (hsub s f x hs h.1).bind fun _ s' hle hs' _ => ?_
    exact evalBody_keeps hsub (y :: es) hs' fun z hz => (h.2 z hz).mono hle

theorem evalUntil_keeps (hsub : D.Handles d depth sub) (stop : Bool) : ∀ (es : List Value) {s : Store}, D.store s →
    (∀ x ∈ es, D.Part depth s.size f x) → D.Keeps d s (evalUntil sub stop f es) (D.Goes depth)
  | [], _, hs, _ => .pure hs (D.value_bool _)
  | [x], _, hs, h => .pure hs (h x List.mem_cons_self)
  | x :: y :: es, s, hs, h => by
    rw [List.forall_mem_cons] at h
    refine (hsub s f x hs h.1).bind fun v s' hle hs' hv => ?_
    split
    · exact .pure hs' hv
    · exact evalUntil_keeps hsub stop (y :: es) hs' fun z hz => (h.2 z hz).mono hle

theorem evalAll_keeps (hsub : D.Handles d depth sub) : ∀ (es : List Value) {s : Store}, D.store s →
    (∀ x ∈ es, D.Part depth s.size f x) → D.Keeps d s (es.mapM (sub f)) fun n vs => ∀ v ∈ vs, D.value n v
  | [], _, hs, _ => .pure hs nofun
  | x :: es, s, hs, h => by
    rw [List.mapM_cons]
    rw [List.forall_mem_cons] at h
    refine (hsub s f x hs h.1).bind fun v s₁ hle hs₁ hv => ?_
    refine (evalAll_keeps hsub es hs₁ fun z hz => (h.2 z hz).mono hle).bind fun vs s₂ hle' hs₂ hvs => ?_
    exact .pure hs₂ (List.forall_mem_cons.2 ⟨D.value_mono hle' hv, hvs⟩)

theorem binds_mono {fr : Frame} {n m : Nat} (h : fr.Binds (D.value n)) (hle : n ≤ m) : fr.Binds (D.value m) :=
  fun name v hv => D.value_mono hle (h name v hv)

theorem evalBindings_keeps (hsub : D.Handles d depth sub) {blame : Value} :
    ∀ (items : List Value) (inner : Frame) {s : Store},
      D.store s → D.value s.size blame → (∀ x ∈ items, D.Part depth s.size f x) → inner.Binds (D.value s.size) →
      D.Keeps d s (evalBindings sub f blame inner items) fun n fr => fr.parent = inner.parent ∧ fr.Binds (D.value n)
  | [], inner, _, hs, _, _, hinner => .pure hs ⟨rfl, hinner⟩
  | item :: items, inner, s, hs, hblame, h, hinner => by
    rw [List.forall_mem_cons] at h
    rw [evalBindings]
    split
    · next name init hitem =>
      have hinit : D.Part depth s.size f init := h.1.element (by rw [Value.elements_of_toList? hitem]; simp)
      refine (hsub s f init hs hinit).bind fun v s' hle hs' hv => ?_
      have hlater := evalBindings_keeps hsub items (inner.define name v) hs' (D.value_mono hle hblame)
        (fun z hz => (h.2 z hz).mono hle) ((binds_mono hinner hle).define name hv)
      rwa [Frame.parent_define] at hlater
    · exact .raise hs hblame _ (by simp)

theorem makeClosure_keeps {e params body : Value} {name : Option String} (hs : D.store s) (he : D.code s.size f e)
    (hform : ClosureForm e name params body) : D.Keeps d s (makeClosure name params body f e) D.value := by
  unfold makeClosure Parameters.check
  by_cases hbody : body.elements = []
  · rw [if_pos (List.isEmpty_iff.2 hbody)]
    exact .raise hs (D.value_of_code he) _ (by simp)
  · rw [if_neg (by simpa using hbody)]
    cases hparams : Parameters.ofValue? params with
    | none => exact .raise hs (D.value_of_code he) _ (by simp)
    | some ps =>
      exact .withStore (Nat.le_refl _)
        (.pure (D.store_labelled _ hs) (D.value_closure _ he hform hbody hparams))

theorem defineName_keeps {l : Label} {rest v : Value} {name : String} (hs : D.store s)
    (he : D.code s.size f (.pair l (.sym "define") rest)) (hname : D.value s.size (.sym name)) (hv : D.value s.size v) :
    D.Keeps d s (defineName f name v) (D.Goes depth) := by
  refine .withStore (Nat.le_of_eq (Store.size_define ..).symm) (.pure (D.store_define name hs he hv) ?_)
  show D.value (s.define f name v).size _
  rwa [Store.size_define]

end Round

/-! ## Primitives -/

section Primitives

variable {n : Nat}

/-- A primitive answers with a number, a truth value, a part of an argument, or a chain of arguments. -/
def Answers (D : Discipline) (n : Nat) : Answer → Prop
  | .value v => D.value n v
  | .chain items tail => (∀ v ∈ items, D.value n v) ∧ D.value n tail
  | .failure _ | .stuck => True

theorem answers_call (p : Primitive) {args : List Value} (h : ∀ v ∈ args, D.value n v) : D.Answers n (p.call args) := by
  have hmade := Primitive.call_made ⟨D.value_nil, D.value_bool, D.value_num, D.value_pair.1⟩ (Eq.refl (p.call args)) h
  cases hcall : p.call args <;> rw [hcall] at hmade <;> exact hmade

end Primitives

section Round

variable {depth : Nat} {sub : Eval} {f : FrameId}

theorem applyProcedure_keeps (hsub : D.Handles d depth sub) {e procedure : Value} {args : List Value} (hs : D.store s)
    (he : D.value s.size e) (hp : D.value s.size procedure) (hargs : ∀ v ∈ args, D.value s.size v) :
    D.Keeps d s (applyProcedure sub e procedure args) (D.Goes depth) := by
  cases procedure with
  | prim p =>
    have hanswer := answers_call p hargs
    unfold applyProcedure
    dsimp only
    cases hcall : p.call args with
    | value v =>
      rw [hcall] at hanswer
      exact .pure hs hanswer
    | chain items tail =>
      rw [hcall] at hanswer
      obtain ⟨hmade, next, hnext⟩ := Store.chain_spec (fun _ _ _ ha hb => D.value_pair.2 ⟨ha, hb⟩) s hanswer.1 hanswer.2
      refine .withStore (by rw [hnext]; exact Nat.le_refl _) ?_
      rw [hnext]
      exact .pure (D.store_labelled next hs) hmade
    | failure error => exact .raise hs he error fun k herror => p.call_unnested args k (herror ▸ hcall)
    | stuck => exact absurd hcall (p.call_ne_stuck args)
  | closure l name ps body g =>
    unfold applyProcedure Parameters.mismatch?
    dsimp only
    by_cases h : ps.arity.accepts args.length = true
    · rw [if_pos h]
      obtain ⟨next, fr, hbind, hparent, hbinds⟩ :=
        Store.bind_spec D.value_nil (fun _ _ _ ha hb => D.value_pair.2 ⟨ha, hb⟩) s ps hargs g
      refine .withStore (by rw [hbind, Store.size_addFrame]; exact Nat.le_succ _) ?_
      rw [hbind]
      have hs' := D.store_labelled next hs
      refine evalBody_keeps hsub _ (D.store_addFrame hs' (D.frame_of_closure hp) hparent hbinds) fun x hx => ?_
      rw [Store.size_addFrame]
      exact ⟨D.code_body hs' hp hx, fun hc => absurd hp (D.not_closure hc)⟩
    · rw [if_neg h]
      exact .raise hs he _ (by simp)
  | nil | bool | num | str | sym | pair => exact .raise hs he _ (by simp)

variable {e rest : Value} {l : Label} {operands : List Value}

/-- What is known of a form: its operands are the elements behind its head. -/
theorem part_of_operand {head : Value} (he : D.code s.size f (.pair l head rest))
    (hrest : rest.toList? = some operands) :
    ∀ x ∈ operands, D.Part (Value.pair l head rest).depth s.size f x := fun x hx =>
  part_of_element he (by rw [Value.elements, Value.elements_of_toList? hrest]; exact List.mem_cons_of_mem _ hx)

theorem evalCond_keeps (hsub : D.Handles d depth sub) (hs : D.store s) (he : D.code s.size f e)
    (hoperands : ∀ x ∈ operands, D.Part depth s.size f x) (rest : Value) :
    D.Keeps d s (evalSpecial sub f e .cond rest operands) (D.Goes depth) := by
  unfold evalSpecial
  dsimp only
  split
  · next test consequent =>
    have htest := hoperands test (by simp)
    refine (hsub s f test hs htest).bind fun v s' hle hs' _ => ?_
    split
    · exact .pure hs' ((hoperands consequent (by simp)).mono hle)
    · exact .pure hs' ⟨D.code_nil (D.code_mono hle he), fun hc => Nat.zero_lt_of_lt (htest.2 hc)⟩
  · next test consequent alternative =>
    refine (hsub s f test hs (hoperands _ (by simp))).bind fun v s' hle hs' _ => ?_
    split
    · exact .pure hs' ((hoperands consequent (by simp)).mono hle)
    · exact .pure hs' ((hoperands alternative (by simp)).mono hle)
  · exact .raise hs (D.value_of_code he) _ (by simp)

theorem evalDefine_keeps (hsub : D.Handles d (Value.pair l (.sym "define") rest).depth sub) (hs : D.store s)
    (he : D.code s.size f (.pair l (.sym "define") rest)) (hrest : rest.toList? = some operands) :
    D.Keeps d s (evalSpecial sub f (.pair l (.sym "define") rest) .define rest operands)
      (D.Goes (Value.pair l (.sym "define") rest).depth) := by
  have hoperands := part_of_operand he hrest
  unfold evalSpecial
  dsimp only
  split
  · next name value =>
    refine (hsub s f value hs (hoperands _ (by simp))).bind fun v s' hle hs' hv => ?_
    have hname := D.value_of_code (hoperands (.sym name) (by simp)).1
    exact defineName_keeps hs' (D.code_mono hle he) (D.value_mono hle hname) hv
  · next l₂ target params tail l₁ front body =>
    obtain ⟨_, _, heq, -⟩ := Value.toList?_eq_cons hrest
    cases heq
    split
    · next name =>
      refine (makeClosure_keeps hs he .define).bind fun v s' hle hs' hv => ?_
      have hsignature := D.value_of_code (hoperands (.pair l₂ (.sym name) params) (by simp)).1
      exact defineName_keeps hs' (D.code_mono hle he) (D.value_mono hle (D.value_pair.1 hsignature).1) hv
    · exact .raise hs (D.value_of_code he) _ (by simp)
  · exact .raise hs (D.value_of_code he) _ (by simp)

theorem evalAssign_keeps (hsub : D.Handles d depth sub) (hs : D.store s) (he : D.code s.size f e)
    (hoperands : ∀ x ∈ operands, D.Part depth s.size f x) (rest : Value) :
    D.Keeps d s (evalSpecial sub f e .assign rest operands) (D.Goes depth) := by
  unfold evalSpecial
  dsimp only
  split
  · next name value =>
    refine (hsub s f value hs (hoperands _ (by simp))).bind fun v s' hle hs' hv => ?_
    refine Keeps.get ?_
    have hf := D.frame_of_code (D.code_mono hle he)
    cases hr : s'.resolve name f with
    | none => exact .raise hs' (D.value_mono hle (D.value_of_code he)) _ (by simp)
    | some found =>
      obtain ⟨howner, hbound⟩ := Store.resolve_spec (fun _ _ hg hp => D.store_parent hs' hg hp) hf hr
      refine .withStore (Nat.le_of_eq (Store.size_define ..).symm) (.pure (D.store_assign hs' howner hbound hv) ?_)
      show D.value (s'.define _ name v).size _
      rwa [Store.size_define]
  · exact .raise hs (D.value_of_code he) _ (by simp)

theorem evalBinding_keeps (hsub : D.Handles d depth sub) (hs : D.store s) (he : D.code s.size f e)
    (hoperands : ∀ x ∈ operands, D.Part depth s.size f x) (rest : Value) :
    D.Keeps d s (evalSpecial sub f e .binding rest operands) (D.Goes depth) := by
  unfold evalSpecial
  dsimp only
  split
  · exact .raise hs (D.value_of_code he) _ (by simp)
  · next bindings body =>
    rw [List.forall_mem_cons] at hoperands
    split
    · exact .raise hs (D.value_of_code he) _ (by simp)
    · next items hitems =>
      have hparts : ∀ x ∈ items, D.Part depth s.size f x := fun x hx =>
        hoperands.1.element (by rwa [Value.elements_of_toList? hitems])
      refine (evalBindings_keeps hsub items _ hs (D.value_of_code he) hparts (Frame.binds_empty _)).bind
        fun inner s' hle hs' hinner => ?_
      have hframe := D.frame_of_code (D.code_mono hle he)
      split
      · exact .raise hs' (D.value_mono hle (D.value_of_code he)) _ (by simp)
      · refine .withStore (by rw [Store.size_addFrame]; exact Nat.le_succ _) ?_
        refine evalBody_keeps hsub body (D.store_addFrame hs' hframe hinner.1 hinner.2) fun x hx => ?_
        rw [Store.size_addFrame]
        have hx := hoperands.2 x hx
        exact ⟨D.code_enter hs' (D.code_mono hle hx.1), hx.2⟩

/-- **Each special form keeps to the discipline.** -/
theorem evalSpecial_keeps (form : SpecialForm) (hsub : D.Handles d (Value.pair l (.sym form.name) rest).depth sub)
    (hs : D.store s) (he : D.code s.size f (.pair l (.sym form.name) rest)) (hrest : rest.toList? = some operands) :
    D.Keeps d s (evalSpecial sub f (.pair l (.sym form.name) rest) form rest operands)
      (D.Goes (Value.pair l (.sym form.name) rest).depth) := by
  have hoperands := part_of_operand he hrest
  cases form with
  | quote =>
    unfold evalSpecial
    dsimp only
    split
    · next datum => exact .pure hs (D.value_of_code (hoperands datum (by simp)).1)
    · exact .raise hs (D.value_of_code he) _ (by simp)
  | cond => exact evalCond_keeps hsub hs he hoperands rest
  | define => exact evalDefine_keeps hsub hs he hrest
  | assign => exact evalAssign_keeps hsub hs he hoperands rest
  | lambda =>
    unfold evalSpecial
    dsimp only
    split
    · exact (makeClosure_keeps hs he .lambda).bind fun v s' _ hs' hv => .pure hs' hv
    · exact .raise hs (D.value_of_code he) _ (by simp)
  | sequence => exact evalBody_keeps hsub operands hs hoperands
  | binding => exact evalBinding_keeps hsub hs he hoperands rest
  | conjunction => exact evalUntil_keeps hsub false operands hs hoperands
  | disjunction => exact evalUntil_keeps hsub true operands hs hoperands

/-- In a call the procedure and the arguments are evaluated first, as they should be. -/
theorem evalCall_keeps {head : Value} {apply : Value → List Value → Run Next}
    (hsub : D.Handles d (Value.pair l head rest).depth sub) (hs : D.store s) (he : D.code s.size f (.pair l head rest))
    (hrest : rest.toList? = some operands)
    (happly : ∀ p args s', s.size ≤ s'.size → D.store s' → D.value s'.size p → (∀ v ∈ args, D.value s'.size v) →
      D.Keeps d s' (apply p args) (D.Goes (Value.pair l head rest).depth)) :
    D.Keeps d s (do let p ← sub f head; let args ← operands.mapM (sub f); apply p args)
      (D.Goes (Value.pair l head rest).depth) := by
  have hoperands := part_of_operand he hrest
  refine (hsub s f head hs (part_of_element he List.mem_cons_self)).bind fun p s₁ hle₁ hs₁ hp => ?_
  refine (evalAll_keeps hsub operands hs₁ fun x hx => (hoperands x hx).mono hle₁).bind fun args s₂ hle₂ hs₂ hargs => ?_
  exact happly p args s₂ (Nat.le_trans hle₁ hle₂) hs₂ (D.value_mono hle₂ hp) hargs

/-- **A round of evaluation keeps to the discipline.** -/
theorem evalRound_keeps {e : Value} (hsub : D.Handles d e.depth sub) (hs : D.store s) (he : D.code s.size f e) :
    D.Keeps d s (evalRound sub f e) (D.Goes e.depth) := by
  cases e with
  | sym name =>
    refine Keeps.get ?_
    cases hlookup : s.lookup f name with
    | none => exact .raise hs (D.value_of_code he) _ (by simp)
    | some v =>
      obtain ⟨⟨g, v'⟩, hr, rfl⟩ := Option.map_eq_some_iff.1 hlookup
      obtain ⟨hg, hbound⟩ := Store.resolve_spec (fun _ _ hg hp => D.store_parent hs hg hp) (D.frame_of_code he) hr
      exact .pure hs (D.store_bound hs hg hbound)
  | pair l head rest =>
    unfold evalRound
    dsimp only
    cases hrest : rest.toList? with
    | none => exact .raise hs (D.value_of_code he) _ (by simp)
    | some operands =>
      cases hform : headForm? head with
      | some form =>
        obtain rfl := Value.eq_of_headForm? hform
        exact evalSpecial_keeps form hsub hs he hrest
      | none =>
        exact evalCall_keeps hsub hs he hrest fun p args s' hle hs' hp hargs =>
          applyProcedure_keeps hsub hs' (D.value_mono hle (D.value_of_code he)) hp hargs
  | nil | bool | num | str | prim | closure => exact .pure hs (D.value_of_code he)

end Round

/-! ## Levels and rounds -/

theorem descend_keeps {limit : Nat} {eval : Eval} {f : FrameId} {e : Value} (hs : D.store s) (he : D.value s.size e)
    (hroom : D.closureless → d < limit) (h : D.Keeps (d + 1) s (eval f e) D.value) :
    D.Keeps d s (descend limit eval f e) D.value := by
  unfold Keeps descend
  dsimp only
  by_cases hd : limit ≤ d
  · rw [if_pos hd]
    exact ⟨.error _, s, rfl, Nat.le_refl _, hs, he, fun hc => absurd (hroom hc) (Nat.not_lt.2 hd)⟩
  · rw [if_neg hd]
    obtain ⟨r, s', hr, hle, hs', hmeets⟩ := h
    rw [hr]
    cases r with
    | ok v => exact ⟨.ok v, s', rfl, hle, hs', hmeets⟩
    | error halt => exact ⟨.error halt, s', rfl, hle, hs', hmeets⟩

/-- Rules keep to the discipline if each round does that evaluates parts as it should. -/
def RoundKeeps (D : Discipline) (round : Eval → FrameId → Value → Run Next) : Prop :=
  ∀ {d s f e sub}, D.Handles d e.depth sub → D.store s → D.code s.size f e →
    D.Keeps d s (round sub f e) (D.Goes e.depth)

/-- The induction is on the fuel: a round takes one off, and so does every level below it. -/
theorem evalWith_keeps {round : Eval → FrameId → Value → Run Next} (hround : D.RoundKeeps round) (limit : Nat) :
    ∀ (fuel d : Nat) {s : Store} {f : FrameId} {e : Value}, D.store s → D.code s.size f e →
      (D.closureless → e.depth < fuel ∧ d + e.depth < limit) →
      D.Keeps (d + 1) s (evalWith round (descend limit) fuel f e) D.value
  | 0, d, s, f, e, hs, _, hroom =>
    ⟨.error .unfinished, s, rfl, Nat.le_refl _, hs, fun hc => Nat.not_lt_zero _ (hroom hc).1⟩
  | fuel + 1, d, s, f, e, hs, he, hroom => by
    have hsub : D.Handles (d + 1) e.depth (descend limit (evalWith round (descend limit) fuel)) := by
      intro s' f' x hs' hx
      have hless : D.closureless → x.depth < fuel ∧ d + 1 + x.depth < limit := fun hc => by
        have := hx.2 hc
        have := hroom hc
        omega
      refine descend_keeps hs' (D.value_of_code hx.1) (fun hc => ?_)
        (evalWith_keeps hround limit fuel (d + 1) hs' hx.1 hless)
      have := hless hc
      omega
    refine (hround hsub hs he).bind fun next s' _ hs' hnext => ?_
    cases next with
    | value v => exact .pure hs' hnext
    | tail f' e' =>
      refine evalWith_keeps hround limit fuel d hs' hnext.1 fun hc => ?_
      have := hnext.2 hc
      have := hroom hc
      omega

/-- **Evaluators keep to a discipline** as their rules do, whatever they come to: from a store and an expression as they
should be, they lead to a store and a value, or an error and an expression to blame, as they should be.  Without
closures they come to an end, given fuel and levels for the nesting of the expression. -/
theorem descend_evalWith_keeps {round : Eval → FrameId → Value → Run Next} (hround : D.RoundKeeps round)
    {limit fuel d : Nat} {f : FrameId} {e : Value} (hs : D.store s) (he : D.code s.size f e)
    (hroom : D.closureless → e.depth < fuel ∧ d + e.depth < limit) :
    D.Keeps d s (descend limit (evalWith round (descend limit) fuel) f e) D.value := by
  refine descend_keeps hs (D.value_of_code he) (fun hc => ?_) (evalWith_keeps hround limit fuel d hs he hroom)
  have := hroom hc
  omega

/-- **Evaluation keeps to a discipline.** -/
theorem evaluate_keeps (D : Discipline) {limit fuel d : Nat} {f : FrameId} {e : Value} (hs : D.store s)
    (he : D.code s.size f e) (hroom : D.closureless → e.depth < fuel ∧ d + e.depth < limit) :
    D.Keeps d s (evaluate limit fuel f e) D.value := by
  rw [evaluate, evalRounds_eq_evalWith]
  exact descend_evalWith_keeps evalRound_keeps hs he hroom

/-- The same of an evaluation that is known to have ended. -/
theorem evaluate_ended (D : Discipline) {limit fuel d d' : Nat} {f : FrameId} {e : Value} {s' : Store}
    {o : Except Raised Value} (hs : D.store s) (he : D.code s.size f e)
    (hroom : D.closureless → e.depth < fuel ∧ d + e.depth < limit)
    (h : evaluate limit fuel f e ⟨s, d⟩ = Run.ended o ⟨s', d'⟩) :
    s.size ≤ s'.size ∧ D.store s' ∧ D.value s'.size (handedOn o) := by
  obtain ⟨r, s₁, hr, hle, hs₁, hmeets⟩ := D.evaluate_keeps hs he hroom
  rw [Run.ended_eq_back, hr] at h
  obtain ⟨rfl, hm⟩ := Run.back_inj h
  cases hm
  cases o with
  | ok v => exact ⟨hle, hs₁, hmeets⟩
  | error r => exact ⟨hle, hs₁, hmeets.1⟩

end Discipline

/-! ## The interpreter -/

/-- The interpreter evaluates a datum as an expression with labels of its own. -/
theorem Interpreter.evaluateIn_of_back {i : Interpreter} {f : FrameId} {d : Datum} {r : Except Halt Value} {m : Machine}
    (h : LispSession.evaluate i.limit evaluationFuel f (i.machine.store.place d).1
      ⟨(i.machine.store.place d).2, i.machine.depth⟩ = Run.back r m) :
    i.evaluateIn f d = (⟨m, i.globals, i.limit⟩, r) := by
  unfold evaluateIn
  dsimp only
  simp only [h]
  cases r <;> rfl

/-- **The interpreter keeps to a discipline** as evaluation does. -/
theorem Discipline.evaluateIn_keeps (D : Discipline) (hc : ¬D.closureless) (i : Interpreter) (f : FrameId) (d : Datum)
    (hs : D.store i.machine.store) (hd : D.code i.machine.store.size f (i.machine.store.place d).1) :
    ∃ r s', i.evaluateIn f d = (⟨⟨s', i.machine.depth⟩, i.globals, i.limit⟩, r) ∧
      i.machine.store.size ≤ s'.size ∧ D.store s' ∧ D.Meets D.value s'.size r := by
  have placed : D.store (i.machine.store.place d).2 := D.store_labelled _ hs
  obtain ⟨r, s', hr, hle, hs', hmeets⟩ := D.evaluate_keeps placed hd fun h => absurd h hc
  exact ⟨r, s', Interpreter.evaluateIn_of_back hr, hle, hs', hmeets⟩

end LispSession
