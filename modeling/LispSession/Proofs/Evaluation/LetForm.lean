import LispSession.Proofs.Evaluation.Blame
import LispSession.Proofs.Evaluation.DepthLimit
import LispSession.Proofs.Evaluation.FreshLabels
import LispSession.Proofs.Evaluation.Relabelled
import Mathlib.Data.List.Forall2
/-!
# `let` applies a `lambda`

`(let ((name init) ..) . body)` and `((lambda (name ..) . body) init ..)` evaluate alike (`let_is_application`).  Both
evaluate the same expressions in the same frame and bind the names in turn, in a new frame under it.  The one thing that
the application does besides is to make a closure, which takes a label; so all labels given out from then on are by one
higher, and there is nothing else in which the two differ.
-/
namespace LispSession

/-! ## The two forms -/

namespace Value

/-- `(let ((name init) ..) . body)` -/
def IsLet (e : Value) (bindings : List (String × Value)) (body : List Value) : Prop :=
  ∃ list items, e.toList? = some (.sym "let" :: list :: body) ∧ list.toList? = some items ∧
    List.Forall₂ (fun item (b : String × Value) => item.toList? = some [.sym b.1, b.2]) items bindings

/-- `((lambda (name ..) . body) init ..)` -/
def IsApplication (e : Value) (bindings : List (String × Value)) (body : List Value) : Prop :=
  ∃ procedure params, e.toList? = some (procedure :: bindings.map (·.2)) ∧
    procedure.toList? = some (.sym "lambda" :: params :: body) ∧
    params.toList? = some (bindings.map (.sym ·.1))

end Value

/-! ## One label more -/

theorem injective_above (n : Nat) : Function.Injective fun l : Nat => if l < n then l else l + 1 := by
  intro l l' h
  dsimp only at h
  split at h <;> split at h <;> omega

/-- The labels from `n` on, by one higher. -/
def Relabelling.above (n : Label) : Relabelling where
  new l := if l < n then l else l + 1
  injective := injective_above n
  bound := n
  succ l h := by rw [if_neg (Nat.not_lt.2 h), if_neg (Nat.not_lt.2 (Nat.le_succ_of_le h))]

section Above

variable {n : Label}

theorem Value.Below.relabel {v : Value} (h : v.Below n n) : v.relabel (.above n) = v := by
  have hnew {l : Label} (hl : l < n) : (Relabelling.above n).new l = l := if_pos hl
  induction v with
  | str l text => rw [Value.relabel, hnew h]
  | pair l car cdr ihCar ihCdr => rw [Value.relabel, hnew h.1, ihCar h.2.1, ihCdr h.2.2]
  | closure l name ps body f ih => rw [Value.relabel, hnew h.1, ih h.2]
  | _ => rfl

theorem Value.Below.map_relabel {vs : List Value} (h : ∀ v ∈ vs, v.Below n n) :
    vs.map (Value.relabel (.above n)) = vs :=
  (List.map_congr_left fun v hv => (h v hv).relabel).trans (List.map_id' vs)

theorem Frame.Below.relabel {fr : Frame} (h : fr.Below n n) : fr.relabel (.above n) = fr := by
  have hbindings : fr.bindings.map (fun b => (b.1, b.2.relabel (.above n))) = fr.bindings := by
    conv => rhs; rw [← List.map_id fr.bindings]
    exact List.map_congr_left fun b hb => congrArg (b.1, ·) (h b hb).relabel
  rw [Frame.relabel, hbindings]

/-- Where all labels in use are lower, only the count is by one higher, as if a label had been given out. -/
theorem Store.WellLabelled.relabel {s : Store} (h : s.WellLabelled) :
    s.relabel (.above s.nextLabel) = s.freshLabel.2 := by
  have hframes : s.frames.map (Frame.relabel (.above s.nextLabel)) = s.frames := by
    refine Array.ext_getElem? fun g => ?_
    rw [Array.getElem?_map]
    cases hfr : s.frames[g]? with
    | none => rfl
    | some fr => exact congrArg some (h.below g fr hfr).relabel
  rw [Store.relabel, hframes]
  exact congrArg (Store.mk s.frames) (if_neg (Nat.lt_irrefl _))

end Above

/-! ## One row of expressions -/

section Row

variable {sub : Eval} {f : FrameId} {α : Type}

/-- Operands come to as many values as there are operands. -/
theorem evalAll_congr {k k' : List Value → Run α} (es : List Value)
    (h : ∀ vs : List Value, vs.length = es.length → k vs = k' vs) :
    (es.mapM (sub f) >>= k) = (es.mapM (sub f) >>= k') := by
  induction es generalizing k k' with
  | nil => exact h [] rfl
  | cons e es ih =>
    simp only [List.mapM_cons, bind_assoc, pure_bind]
    refine bind_congr fun v => ih fun vs hvs => h (v :: vs) ?_
    rw [List.length_cons, List.length_cons, hvs]

/-- The bindings of a `let` are operands, bound in turn. -/
theorem evalBindings_eq {blame : Value} {items : List Value} {bindings : List (String × Value)}
    (h : List.Forall₂ (fun item (b : String × Value) => item.toList? = some [.sym b.1, b.2]) items bindings)
    (inner : Frame) :
    evalBindings sub f blame inner items = (do
      let vs ← (bindings.map (·.2)).mapM (sub f)
      return ((bindings.map (·.1)).zip vs).foldl (fun f (name, v) => f.define name v) inner) := by
  induction h generalizing inner with
  | nil => rfl
  | cons hitem _ ih =>
    simp only [evalBindings, hitem, ih, List.map_cons, List.mapM_cons, bind_assoc, pure_bind]
    rfl

/-- The names bound to the values of the operands in a new frame, and the body evaluated there. -/
def applyTo (sub : Eval) (f : FrameId) (bindings : List (String × Value)) (body : List Value) : Run Next := do
  let vs ← (bindings.map (·.2)).mapM (sub f)
  let inner ← Run.withStore
    (·.addFrame (((bindings.map (·.1)).zip vs).foldl (fun f (name, v) => f.define name v) { parent := some f }))
  evalBody sub inner body

theorem evalRound_let {e : Value} {bindings : List (String × Value)} {body : List Value} (h : e.IsLet bindings body)
    (hbody : body ≠ []) :
    evalRound sub f e = applyTo sub f bindings body := by
  obtain ⟨list, items, he, hlist, hitems⟩ := h
  obtain ⟨l, rest, -, -, hround⟩ := evalRound_special .binding he
  rw [hround]
  simp only [evalSpecial, hlist, evalBindings_eq hitems, bind_assoc, pure_bind, List.isEmpty_iff, hbody, ↓reduceIte]
  rfl

/-- A `lambda` applied to operands does what a `let` does, once it has been made. -/
theorem applyTo_of_closure {e code : Value} {label : Label} {bindings : List (String × Value)} {body : List Value}
    (hcode : code.elements = body) :
    (do
      let args ← (bindings.map (·.2)).mapM (sub f)
      applyProcedure sub e (.closure label none ⟨bindings.map (·.1), none⟩ code f) args) =
        applyTo sub f bindings body := by
  refine evalAll_congr _ fun args hargs => ?_
  have haccepts : Arity.accepts (.exactly (bindings.map (·.1)).length) args.length = true := by
    rw [hargs, List.length_map, List.length_map]
    exact beq_self_eq_true bindings.length
  simp only [applyProcedure, Parameters.mismatch?, Parameters.arity, haccepts, ↓reduceIte, hcode]
  rfl

theorem applyTo_relabelled {ρ : Relabelling} {sub' : Eval} (hsub : RelabelledAll ρ sub sub')
    (bindings : List (String × Value)) (body : List Value) :
    Relabelled ρ (Next.relabel ρ) (applyTo sub f bindings body)
      (applyTo sub' f (bindings.map fun b => (b.1, b.2.relabel ρ)) (body.map (Value.relabel ρ))) := by
  have hinits : (bindings.map fun b => (b.1, b.2.relabel ρ)).map (·.2) =
      (bindings.map (·.2)).map (Value.relabel ρ) := by
    rw [List.map_map, List.map_map]
    rfl
  have hnames : (bindings.map fun b => (b.1, b.2.relabel ρ)).map (·.1) = bindings.map (·.1) := by
    rw [List.map_map]
    rfl
  unfold applyTo
  rw [hinits, hnames]
  refine (evalAll_relabelled hsub f _).bind fun vs => .bind (g := id) (.withStore fun s hs => ⟨?_, hs⟩) fun inner =>
    evalBody_relabelled hsub inner body
  have hadd := s.addFrame_relabel (ρ := ρ)
    (((bindings.map (·.1)).zip vs).foldl (fun f (name, v) => f.define name v) { parent := some f })
  rw [Frame.defineAll_relabel] at hadd
  rw [List.zip_map_right]
  exact hadd

end Row

/-! ## The procedure -/

section Procedure

variable {limit d : Nat} {f : FrameId} {s : Store} {params procedure : Value} {names : List String} {body : List Value}

theorem Parameters.ofValueAfter_names (h : params.toList? = some (names.map .sym)) (reversed : List String) :
    ofValueAfter reversed params = some ⟨reversed.reverse ++ names, none⟩ := by
  induction names generalizing params reversed with
  | nil =>
    cases params with
    | nil => rw [ofValueAfter, List.append_nil]
    | pair l car cdr =>
      rw [Value.toList?_pair] at h
      obtain ⟨_, -, hcons⟩ := Option.map_eq_some_iff.1 h
      cases hcons
    | _ => cases h
  | cons name names ih =>
    obtain ⟨l, rest, rfl, hrest⟩ := Value.toList?_eq_cons h
    rw [ofValueAfter, ih hrest, List.reverse_cons, List.append_assoc]
    rfl

/-- A `lambda` takes one label. -/
theorem evaluate_lambda (fuel : Nat) (hd : d < limit) (h : procedure.toList? = some (.sym "lambda" :: params :: body))
    (hparams : params.toList? = some (names.map .sym)) (hbody : body ≠ []) : ∃ code : Value, code.elements = body ∧
      evaluate limit (fuel + 1) f procedure ⟨s, d⟩ =
        .ok (.closure s.nextLabel none ⟨names, none⟩ code f) ⟨s.freshLabel.2, d⟩ := by
  obtain ⟨l, rest, -, hrest, hround⟩ := evalRound_special .lambda h
  obtain ⟨l₁, code, rfl, hcode⟩ := Value.toList?_eq_cons hrest
  have helements : code.elements = body := Value.elements_of_toList? hcode
  have hcheck : Parameters.check params code = .ok ⟨names, none⟩ := by
    rw [Parameters.check, helements, if_neg (by simpa using hbody), Parameters.ofValue?,
      Parameters.ofValueAfter_names hparams]
    rfl
  refine ⟨code, helements, descend_of_lt (o := .ok _) hd ?_⟩
  rw [evalRounds_succ, hround]
  simp only [evalSpecial, makeClosure, hcheck]
  rfl

end Procedure

/-! ## The two forms compared -/

/-- A result with other labels in what it comes to, and the same expression to blame. -/
def relabelResult (ρ : Relabelling) : EStateM.Result Halt Machine Value → EStateM.Result Halt Machine Value
  | .ok v m => .ok (v.relabel ρ) (m.relabel ρ)
  | .error halt m => .error halt (m.relabel ρ)

/-- The same of an outcome. -/
def relabelOutcome (ρ : Relabelling) : Except Raised Value → Except Raised Value
  | .ok v => .ok (v.relabel ρ)
  | .error r => .error r

theorem relabelResult_ended (ρ : Relabelling) (o : Except Raised Value) (s : Store) (d : Nat) :
    relabelResult ρ (Run.ended o ⟨s, d⟩) = Run.ended (relabelOutcome ρ o) ⟨s.relabel ρ, d⟩ := by
  cases o <;> rfl

section Compared

variable {limit d : Nat} {f : FrameId} {s : Store} {form application : Value} {bindings : List (String × Value)}
    {body : List Value}

theorem Value.IsLet.below {b : Label} (h : form.IsLet bindings body) (hlabels : form.Below b b) :
    (∀ p ∈ bindings, p.2.Below b b) ∧ ∀ x ∈ body, x.Below b b := by
  obtain ⟨list, items, hform, hlist, hitems⟩ := h
  have hbelow := (hlabels.item hform list (by simp)).item hlist
  refine ⟨?_, fun x hx => hlabels.item hform x (by simp [hx])⟩
  clear hlist hform
  induction hitems with
  | nil => nofun
  | cons hitem _ ih =>
    rw [List.forall_mem_cons] at hbelow
    exact List.forall_mem_cons.2 ⟨hbelow.1.item hitem _ (by simp), ih hbelow.2⟩

theorem Value.IsApplication.noKeyword {procedure params : Value}
    (h : procedure.toList? = some (.sym "lambda" :: params :: body)) :
    procedure.NoKeyword := by
  obtain ⟨l, rest, rfl, -⟩ := Value.toList?_eq_cons h
  nofun

theorem evalRounds_let (fuel : Nat) (m : Machine) (h : form.IsLet bindings body) (hbody : body ≠ []) :
    evalRounds limit (fuel + 2) f form m =
      (applyTo (evaluate limit (fuel + 1)) f bindings body >>= finish limit (fuel + 1)) m := by
  rw [evalRounds_succ, evalRound_let h hbody]

theorem evalRounds_application (fuel : Nat) (h : application.IsApplication bindings body) (hbody : body ≠ [])
    (hlimit : d < limit) :
    evalRounds limit (fuel + 2) f application ⟨s, d⟩ =
      (applyTo (evaluate limit (fuel + 1)) f bindings body >>= finish limit (fuel + 1)) ⟨s.freshLabel.2, d⟩ := by
  obtain ⟨procedure, params, happlication, hprocedure, hparams⟩ := h
  have hparams' : params.toList? = some ((bindings.map (·.1)).map .sym) := by rw [hparams, List.map_map]; rfl
  obtain ⟨code, hcode, hmade⟩ := evaluate_lambda (f := f) (s := s) fuel hlimit hprocedure hparams' hbody
  rw [evalRounds_succ, evalRound_call happlication (Value.IsApplication.noKeyword hprocedure), bind_assoc,
    Run.bind_of_ok hmade, applyTo_of_closure hcode]

theorem applyTo_finish_relabelled {n : Label} (limit fuel : Nat) (f : FrameId) (hinits : ∀ p ∈ bindings, p.2.Below n n)
    (hbelow : ∀ x ∈ body, x.Below n n) :
    Relabelled (.above n) (Value.relabel (.above n))
      (applyTo (evaluate limit fuel) f bindings body >>= finish limit fuel)
      (applyTo (evaluate limit fuel) f bindings body >>= finish limit fuel) := by
  have hrun := (applyTo_relabelled (f := f) (evaluate_relabelled (ρ := .above n) limit fuel) bindings body).bind
    (finish_relabelled limit fuel (evalRounds_relabelled limit fuel))
  have hbindings : bindings.map (fun b => (b.1, b.2.relabel (.above n))) = bindings := by
    conv => rhs; rw [← List.map_id bindings]
    exact List.map_congr_left fun b hb => congrArg (b.1, ·) (hinits b hb).relabel
  rwa [hbindings, Value.Below.map_relabel hbelow] at hrun

theorem descend_of_room {eval : Eval} {e : Value} (h : d < limit) : descend limit eval f e ⟨s, d⟩ =
    match eval f e ⟨s, d + 1⟩ with
    | .ok v m => .ok v { m with depth := m.depth - 1 }
    | .error halt m => .error halt { m with depth := m.depth - 1 } := if_neg (Nat.not_le.2 h)

/-- Given two levels and two rounds, which making the closure takes, the two forms come to the same result. -/
theorem evaluate_application (fuel : Nat) (hform : form.IsLet bindings body)
    (happlication : application.IsApplication bindings body) (hbody : body ≠ []) (hs : s.WellLabelled)
    (hlabels : form.Below s.nextLabel s.nextLabel) (hlimit : d + 2 ≤ limit) :
    evaluate limit (fuel + 2) f application ⟨s, d⟩ =
      relabelResult (.above s.nextLabel) (evaluate limit (fuel + 2) f form ⟨s, d⟩) := by
  have hd : d < limit := Nat.lt_of_lt_of_le (Nat.lt_succ_of_lt (Nat.lt_succ_self d)) hlimit
  obtain ⟨hinits, hbelow⟩ := hform.below hlabels
  have hrun := applyTo_finish_relabelled limit (fuel + 1) f hinits hbelow ⟨s, d + 1⟩ (Nat.le_refl _)
  rw [Machine.relabel, hs.relabel] at hrun
  have hblamed (r : Raised) (m : Machine) (h : evaluate limit (fuel + 2) f form ⟨s, d⟩ = .error (.raised r) m) :
      r.blame.relabel (.above s.nextLabel) = r.blame := ((Starts.of_raised h).givesOut hlabels hs).2.2.relabel
  have hlet : evaluate limit (fuel + 2) f form ⟨s, d⟩ = _ := descend_of_room hd
  have happly : evaluate limit (fuel + 2) f application ⟨s, d⟩ = _ := descend_of_room hd
  rw [evalRounds_let fuel _ hform hbody] at hlet
  rw [evalRounds_application fuel happlication hbody hlimit] at happly
  rw [hlet] at hblamed ⊢
  rw [happly]
  rcases hx : (applyTo (evaluate limit (fuel + 1)) f bindings body >>= finish limit (fuel + 1)) ⟨s, d + 1⟩ with
    ⟨v, m⟩ | ⟨halt, m⟩
  · rw [hx] at hrun
    rw [hrun.1]
    rfl
  · rw [hx] at hrun hblamed
    rw [hrun]
    cases halt with
    | raised r => rw [Halt.relabel, Raised.relabel, hblamed r _ rfl]; rfl
    | stuck | unfinished => rfl

/-- With less than two levels, there is no room to make the closure. -/
theorem application_overLimit (fuel : Nat) (happlication : application.IsApplication bindings body)
    (hlimit : limit < d + 2) :
    OverLimit limit (evaluate limit (fuel + 1) f application ⟨s, d⟩) := by
  obtain ⟨procedure, params, happlication, hprocedure, -⟩ := happlication
  by_cases hd : limit ≤ d
  · exact ⟨application, ⟨s, d⟩, descend_of_le hd⟩
  · refine ⟨procedure, ⟨s, d⟩, descend_of_lt (o := .error _) (Nat.lt_of_not_le hd) ?_⟩
    rw [evalRounds_succ, evalRound_call happlication (Value.IsApplication.noKeyword hprocedure), bind_assoc]
    exact Run.bind_of_error (descend_of_le (Nat.le_of_lt_succ hlimit))

/-- **`let` applies a `lambda`.**  Given two levels, the `let` and the application both come to an end or both do not.
They come to the same value, up to the labels given out on the way, or to the same error, blaming the same expression;
and they leave the same frames with the same bindings, up to those labels, which are by one higher in the application.
With the same fuel they do so step by step, whatever that is enough for, errors of nesting included.  With less than two
levels the application has no room for the `lambda`.

Labels in use have to be given out, which they are in every store that an interpreter comes to
(`Interpreter.start_wellLabelled`, `Interpreter.evaluateIn_wellLabelled`) and in every expression that is placed there
(`Store.Labelled.place`). -/
theorem let_is_application (limit d : Nat) (f : FrameId) (s : Store) (form application : Value)
    (bindings : List (String × Value)) (body : List Value) (hform : form.IsLet bindings body)
    (happlication : application.IsApplication bindings body) (hbody : body ≠ []) (hs : s.WellLabelled)
    (hlabels : form.Below s.nextLabel s.nextLabel) :
    (d + 2 ≤ limit →
      (∀ fuel, evaluate limit (fuel + 2) f application ⟨s, d⟩ =
        relabelResult (.above s.nextLabel) (evaluate limit (fuel + 2) f form ⟨s, d⟩)) ∧
      ∀ o s', (⟨d, f, application, s⟩ : Onset).Ends limit o s' ↔ ∃ o₀ s₀, (⟨d, f, form, s⟩ : Onset).Ends limit o₀ s₀ ∧
        o = relabelOutcome (.above s.nextLabel) o₀ ∧ s' = s₀.relabel (.above s.nextLabel)) ∧
    (limit < d + 2 → ∀ fuel, OverLimit limit (evaluate limit (fuel + 1) f application ⟨s, d⟩)) := by
  refine ⟨fun hlimit => ?_, fun hlimit fuel => application_overLimit fuel happlication hlimit⟩
  have hsame (fuel : Nat) := evaluate_application (f := f) fuel hform happlication hbody hs hlabels hlimit
  refine ⟨hsame, fun o s' => ⟨fun h => ?_, ?_⟩⟩
  · obtain ⟨n, hn⟩ := (Onset.ends_iff.1 h).settles
    have hended := (hsame n).symm.trans (hn (n + 2) (Nat.le_add_right n 2))
    obtain ⟨m, hm⟩ | ⟨o₀, s₀, hlet, -⟩ := evaluate_yields limit (n + 2) d f form s
    · rw [hm] at hended
      cases o <;> cases hended
    · rw [hlet, relabelResult_ended] at hended
      obtain ⟨ho, hm⟩ := Run.ended_inj hended
      cases hm
      exact ⟨o₀, s₀, ⟨n + 2, hlet⟩, ho.symm, rfl⟩
  · rintro ⟨o₀, s₀, h, rfl, rfl⟩
    obtain ⟨n, hn⟩ := (Onset.ends_iff.1 h).settles
    refine ⟨n + 2, (hsame n).trans ?_⟩
    rw [show evaluate limit (n + 2) f form ⟨s, d⟩ = _ from hn (n + 2) (Nat.le_add_right n 2), relabelResult_ended]

/-- `(let ((x #t) (x (cons x x))) x)` binds `x` twice.  Both times the outer `x` is meant in what it is bound to, and
the later binding counts; so it does in `((lambda (x x) x) #t (cons x x))`, where the pair has the next label. -/
theorem name_bound_twice :
    let list (items : List Value) : Value := items.foldr (.pair 0) .nil
    let pairUp := list [.sym "cons", .sym "x", .sym "x"]
    let bindings := [("x", .bool true), ("x", pairUp)]
    let form := list [.sym "let", list [list [.sym "x", .bool true], list [.sym "x", pairUp]], .sym "x"]
    let application := list [list [.sym "lambda", list [.sym "x", .sym "x"], .sym "x"], .bool true, pairUp]
    let store : Store := { frames := #[{ bindings := [("x", .bool false), ("cons", .prim .cons)] }], nextLabel := 1 }
    let after (l : Label) : Store :=
      { frames := store.frames.push ⟨[("x", .pair l (.bool false) (.bool false))], some 0⟩, nextLabel := l + 1 }
    form.IsLet bindings [.sym "x"] ∧ application.IsApplication bindings [.sym "x"] ∧
    store.WellLabelled ∧ form.Below 1 1 ∧
    evaluate 3 9 0 form ⟨store, 0⟩ = .ok (.pair 1 (.bool false) (.bool false)) ⟨after 1, 0⟩ ∧
    evaluate 3 9 0 application ⟨store, 0⟩ = .ok (.pair 2 (.bool false) (.bool false)) ⟨after 2, 0⟩ := by
  intro list pairUp bindings form application store after
  have hform : form.IsLet bindings [.sym "x"] := ⟨_, _, rfl, rfl, .cons rfl (.cons rfl .nil)⟩
  have happlication : application.IsApplication bindings [.sym "x"] := ⟨_, _, rfl, rfl, rfl⟩
  have hstore : store.WellLabelled := by
    refine ⟨Nat.le_refl _, fun g fr hfr => ?_⟩
    obtain ⟨hlt, rfl⟩ := Array.getElem?_eq_some_iff.1 hfr
    obtain rfl : g = 0 := Nat.lt_one_iff.1 hlt
    exact List.forall_mem_cons.2 ⟨trivial, List.forall_mem_cons.2 ⟨trivial, nofun⟩⟩
  have hlabels : form.Below 1 1 := by
    simp [form, list, pairUp, Value.Below]
  have hlet : evaluate 3 9 0 form ⟨store, 0⟩ = .ok (.pair 1 (.bool false) (.bool false)) ⟨after 1, 0⟩ := by
    with_unfolding_all rfl
  obtain ⟨hsame, -⟩ := (let_is_application 3 0 0 store form application bindings [.sym "x"] hform happlication
    (List.cons_ne_nil _ _) hstore hlabels).1 (by decide)
  refine ⟨hform, happlication, hstore, hlabels, hlet, (hsame 7).trans ((congrArg _ hlet).trans ?_)⟩
  with_unfolding_all rfl

end Compared

end LispSession
