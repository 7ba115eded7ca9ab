import LispSession.Chain
/-!
# The registry of steps

A chain only grows.  A step that is registered stays as it is but for its slot (`Chain.Extends`), and what follows it
was there before it, so links lead down and come to an end (`Chain.Route`).  What an operation can do to a chain is said
once (`Chain.Reworks`); what any number of them can do follows from that, one after the other (`Chain.Becomes`).
-/
namespace LispSession

namespace Chain

/-- What can be done with a chain.  An invocation to be followed may have been made to go on with any step. -/
inductive Operation where
  | addState
  | modifyShared (id : StepId) (f : Shared → Shared)
  | add (successor : Option StepId) (stage : Stage)
  | addSharing (successor : Option StepId) (stage : Stage) (state : StateId)
  | addBefore (receiver : StepId) (stage : Stage)
  | ensureBefore (successor : StepId) (stage : Stage)
  | fillSlot (id : StepId) (payload : Payload)
  | takeSlot (id : StepId)
  | invoke (id : StepId) (payload : Payload)
  | follow (i : Invocation) (payload : Payload)
  | raise (origin : StepId) (report : Report)

namespace Operation

/-- The chain that an operation comes to, unless it fails. -/
def result (c : Chain) : Operation → Except StepFailure Chain
  | .addState => .ok c.addState.2
  | .modifyShared id f => c.modifyShared id f
  | .add successor stage => (c.add successor stage).map Prod.snd
  | .addSharing successor stage state => .ok (c.addSharing successor stage state).2
  | .addBefore receiver stage => (c.addBefore receiver stage).map Prod.snd
  | .ensureBefore successor stage => (c.ensureBefore successor stage).map Prod.snd
  | .fillSlot id payload => c.fillSlot id payload
  | .takeSlot id => (c.takeSlot id).map Prod.snd
  | .invoke id payload => (c.invoke id payload).map fun _ => c
  | .follow i payload => (c.follow i payload).map fun _ => c
  | .raise origin report => (c.raise origin report).map fun _ => c

/-- What is asked of an operation: a successor and a state that are given explicitly are there, and so is a step with
its slot. -/
def Fits (c : Chain) : Operation → Prop
  | .addSharing successor _ state => (∀ next, successor = some next → next < c.size) ∧ state < c.states.size
  | .fillSlot id _ | .takeSlot id => id < c.size
  | _ => True

/-- The slot that an operation changes, and what is in it afterwards. -/
def puts? : Operation → Option (StepId × Payload)
  | .fillSlot id payload => some (id, payload)
  | .takeSlot id => some (id, .none)
  | _ => none

end Operation

/-- A chain after an operation.  One that fails leaves it as it is. -/
def after (c : Chain) (op : Operation) : Chain :=
  match op.result c with
  | .ok c' => c'
  | .error _ => c

/-- What operations make of a chain, each of them fitting what those before it have made. -/
inductive Becomes : Chain → List Operation → Chain → Prop
  | nil {c : Chain} : Becomes c [] c
  | cons {c c' : Chain} {op : Operation} {ops : List Operation} (fits : op.Fits c)
      (later : Becomes (c.after op) ops c') :
      Becomes c (op :: ops) c'

/-- What the slot of a step holds after an operation. -/
def Operation.leaves (id : StepId) (kept : Payload) (op : Operation) : Payload :=
  match op.puts? with
  | some (other, payload) => if other = id then payload else kept
  | none => kept

/-- What was put last into the slot of a step.  There is nothing in it at first, nor after it was taken. -/
def putLast (id : StepId) (ops : List Operation) : Payload := ops.foldl (Operation.leaves id) .none

/-- The steps that are linked behind each other, from the first one to one that nothing follows. -/
inductive Route (c : Chain) : Option StepId → List StepId → Prop
  | nil : Route c none []
  | cons {id : StepId} {next : Option StepId} {later : List StepId} (link : c.successor id = .ok next)
      (rest : Route c next later) :
      Route c (some id) (id :: later)

/-- Whatever follows a step is registered. -/
def Linked (c : Chain) : Prop := ∀ s ∈ c.steps, ∀ next, s.successor = some next → next < c.size

/-- An invocation of a registered step that is followed by a registered one, if by any. -/
structure Knows (c : Chain) (i : Invocation) : Prop where
  step : i.id < c.size
  successor : ∀ next, i.successor = some next → next < c.size

/-- The registered step behind a link, with what is in its slot. -/
def nextLink? (c : Chain) (i : Invocation) : Option Invocation :=
  i.successor.bind fun id => c.steps[id]?.map fun s => ⟨id, s.successor, s.slot⟩

/-- The links from an invocation on, at most so many. -/
def row (c : Chain) : Nat → Invocation → List Invocation
  | 0, _ => []
  | depth + 1, i => i :: match c.nextLink? i with
    | none => []
    | some next => c.row depth next

/-- What is shown of a link. -/
def shown (c : Chain) (i : Invocation) : String :=
  "#" ++ toString i.id ++ " " ++ ((c.steps[i.id]?.map fun s => s.stage.name).getD "") ++ " " ++ i.payload.text

/-! ## Steps -/

variable {c c' : Chain} {id : StepId} {s : Step}

theorem step_of_getElem? (h : c.steps[id]? = some s) : c.step id = .ok s := by rw [step, h]

theorem stage_of_getElem? (h : c.steps[id]? = some s) :
    c.stage id = .ok s.stage := by rw [stage, step_of_getElem? h]; rfl

theorem successor_of_getElem? (h : c.steps[id]? = some s) : c.successor id = .ok s.successor := by
  rw [successor, step_of_getElem? h]; rfl

theorem state_of_getElem? (h : c.steps[id]? = some s) :
    c.state id = .ok s.state := by rw [state, step_of_getElem? h]; rfl

theorem slot_of_getElem? (h : c.steps[id]? = some s) : c.slot id = .ok s.slot := by rw [slot, step_of_getElem? h]; rfl

theorem getElem?_of_lt (h : id < c.size) : ∃ s, c.steps[id]? = some s := ⟨c.steps[id], Array.getElem?_eq_getElem h⟩

theorem lt_of_getElem? (h : c.steps[id]? = some s) : id < c.size := (Array.getElem?_eq_some_iff.1 h).1

theorem state_error (h : c.steps[id]? = none) :
    ∃ failure, c.state id = .error failure := ⟨_, by rw [state, step, h]; rfl⟩

theorem getElem?_of_successor {next : Option StepId} (h : c.successor id = .ok next) :
    ∃ s, c.steps[id]? = some s ∧ s.successor = next := by
  cases hs : c.steps[id]? with
  | none =>
    rw [successor, step, hs] at h
    cases h
  | some s =>
    rw [successor_of_getElem? hs] at h
    exact ⟨s, rfl, Except.ok.inj h⟩

/-! ## What an operation can do -/

/-- What follows a step was there before it, and its state is there. -/
structure Sound (c : Chain) : Prop where
  down : ∀ (id next : StepId) (s : Step), c.steps[id]? = some s → s.successor = some next → next < id
  known : ∀ (id : StepId) (s : Step), c.steps[id]? = some s → s.state < c.states.size

/-- What an operation can do to the steps: nothing, register one with an empty slot behind steps that are there, or
change a slot. -/
inductive Reworks (c c' : Chain) : Option (StepId × Payload) → Prop
  | keeps (steps : c'.steps = c.steps) : Reworks c c' none
  | registers {s : Step} (steps : c'.steps = c.steps.push s) (empty : s.slot = .none)
      (down : ∀ next, s.successor = some next → next < c.size) (known : s.state < c'.states.size) : Reworks c c' none
  | puts {id : StepId} {payload : Payload} (there : id < c.size)
      (steps : c'.steps = c.steps.modify id fun s => { s with slot := payload }) : Reworks c c' (some (id, payload))

theorem after_of_ok {op : Operation} (h : op.result c = .ok c') : c.after op = c' := by rw [after, h]

theorem after_of_error {op : Operation} {failure : StepFailure} (h : op.result c = .error failure) :
    c.after op = c := by rw [after, h]

/-- What only looks at a chain leaves it as it is. -/
theorem after_of_map {α : Type} {op : Operation} {x : Except StepFailure α} (h : op.result c = x.map fun _ => c) :
    c.after op = c := by
  cases x with
  | ok a => exact after_of_ok h
  | error failure => exact after_of_error h

theorem add_some {next : StepId} (h : c.steps[next]? = some s) (stage : Stage) :
    c.add (some next) stage = .ok (c.addSharing (some next) stage s.state) := by rw [add, state_of_getElem? h]; rfl

/-- Whether a step is for a stage, goes on to `next` and shares a state. -/
def serves (next : StepId) (stage : Stage) (state : StateId) (s : Step) : Bool :=
  s.stage == stage && s.successor == some next && s.state == state

theorem serves_iff {next : StepId} {stage : Stage} {state : StateId} :
    serves next stage state s = true ↔ s.stage = stage ∧ s.successor = some next ∧ s.state = state := by
  simp [serves, and_assoc]

theorem ensureBefore_found {next : StepId} {stage : Stage} (h : c.steps[next]? = some s)
    (hfound : c.steps.findIdx? (serves next stage s.state) = some id) : c.ensureBefore next stage = .ok (id, c) := by
  unfold serves at hfound
  rw [ensureBefore, state_of_getElem? h, Except.map, hfound]

theorem ensureBefore_missing {next : StepId} {stage : Stage} (h : c.steps[next]? = some s)
    (hmissing : c.steps.findIdx? (serves next stage s.state) = none) :
    c.ensureBefore next stage = .ok (c.addSharing (some next) stage s.state) := by
  unfold serves at hmissing
  rw [ensureBefore, state_of_getElem? h, Except.map, hmissing]

theorem fillSlot_of_lt (h : id < c.size) (payload : Payload) :
    c.fillSlot id payload = .ok { c with steps := c.steps.modify id fun s => { s with slot := payload } } := if_pos h

theorem takeSlot_of_getElem? (h : c.steps[id]? = some s) :
    c.takeSlot id = .ok (s.slot, { c with steps := c.steps.modify id fun s => { s with slot := .none } }) := by
  rw [takeSlot, slot_of_getElem? h, fillSlot_of_lt (lt_of_getElem? h)]
  rfl

theorem Sound.addSharing_reworks (sound : c.Sound) {next : StepId} (h : c.steps[next]? = some s) (stage : Stage) :
    Reworks c (c.addSharing (some next) stage s.state).2 none :=
  .registers rfl rfl (fun _ he => Option.some.inj he ▸ lt_of_getElem? h) (sound.known next s h)

/-- A step that is registered before a given one, if that is there. -/
theorem Sound.add_reworks (sound : c.Sound) {op : Operation} {next : StepId} {stage : Stage}
    (hresult : op.result c = (c.add (some next) stage).map Prod.snd) :
    Reworks c (c.after op) none ∧ c.states.size ≤ (c.after op).states.size := by
  cases h : c.steps[next]? with
  | none =>
    obtain ⟨failure, hfailure⟩ := state_error h
    rw [after_of_error (hresult.trans (by rw [add, hfailure]; rfl))]
    exact ⟨.keeps rfl, Nat.le_refl _⟩
  | some s =>
    rw [after_of_ok (hresult.trans (by rw [add_some h]; rfl))]
    exact ⟨sound.addSharing_reworks h stage, Nat.le_refl _⟩

/-- **What an operation can do to a chain.** -/
theorem Sound.after_reworks (sound : c.Sound) {op : Operation} (fits : op.Fits c) :
    Reworks c (c.after op) op.puts? ∧ c.states.size ≤ (c.after op).states.size := by
  cases op with
  | addState => exact ⟨.keeps rfl, by simp [after, Operation.result, addState]⟩
  | modifyShared id f =>
    cases h : c.state id with
    | error failure =>
      rw [after_of_error (by rw [Operation.result, modifyShared, h]; rfl)]
      exact ⟨.keeps rfl, Nat.le_refl _⟩
    | ok state =>
      rw [after_of_ok (by rw [Operation.result, modifyShared, h]; rfl)]
      exact ⟨.keeps rfl, Nat.le_of_eq (Array.size_modify ..).symm⟩
  | add successor stage =>
    cases successor with
    | none =>
      exact ⟨.registers rfl rfl nofun (by simp [after, Operation.result, add, addState, addSharing, Except.map]),
        by simp [after, Operation.result, add, addState, addSharing, Except.map]⟩
    | some next => exact sound.add_reworks rfl
  | addSharing successor stage state => exact ⟨.registers rfl rfl fits.1 fits.2, Nat.le_refl _⟩
  | addBefore receiver stage => exact sound.add_reworks rfl
  | ensureBefore successor stage =>
    cases h : c.steps[successor]? with
    | none =>
      obtain ⟨failure, hfailure⟩ := state_error h
      rw [after_of_error (by rw [Operation.result, ensureBefore, hfailure]; rfl)]
      exact ⟨.keeps rfl, Nat.le_refl _⟩
    | some s =>
      cases hfound : c.steps.findIdx? (serves successor stage s.state) with
      | none =>
        rw [after_of_ok (by rw [Operation.result, ensureBefore_missing h hfound]; rfl)]
        exact ⟨sound.addSharing_reworks h stage, Nat.le_refl _⟩
      | some id =>
        rw [after_of_ok (by rw [Operation.result, ensureBefore_found h hfound]; rfl)]
        exact ⟨.keeps rfl, Nat.le_refl _⟩
  | fillSlot id payload =>
    rw [after_of_ok (show Operation.result c (.fillSlot id payload) = _ from fillSlot_of_lt fits payload)]
    exact ⟨.puts fits rfl, Nat.le_refl _⟩
  | takeSlot id =>
    obtain ⟨s, hs⟩ := getElem?_of_lt fits
    rw [after_of_ok (by rw [Operation.result, takeSlot_of_getElem? hs]; rfl)]
    exact ⟨.puts fits rfl, Nat.le_refl _⟩
  | invoke id payload =>
    rw [after_of_map (x := c.invoke id payload) rfl]
    exact ⟨.keeps rfl, Nat.le_refl _⟩
  | follow i payload =>
    rw [after_of_map (x := c.follow i payload) rfl]
    exact ⟨.keeps rfl, Nat.le_refl _⟩
  | raise origin report =>
    rw [after_of_map (x := c.raise origin report) rfl]
    exact ⟨.keeps rfl, Nat.le_refl _⟩

/-! ## What operations keep -/

/-- Every registered step is registered later on, with nothing changed but its slot. -/
def Extends (c c' : Chain) : Prop :=
  ∀ (id : StepId) (s : Step), c.steps[id]? = some s → ∃ payload, c'.steps[id]? = some { s with slot := payload }

theorem Extends.refl (c : Chain) : c.Extends c := fun _ s h => ⟨s.slot, h⟩

theorem Extends.trans {c'' : Chain} (h : c.Extends c') (h' : c'.Extends c'') : c.Extends c'' := by
  intro id s hs
  obtain ⟨payload, hs'⟩ := h id s hs
  obtain ⟨payload', hs''⟩ := h' id _ hs'
  exact ⟨payload', hs''⟩

theorem Extends.size_le (h : c.Extends c') : c.size ≤ c'.size := by
  refine Nat.le_of_not_lt fun hlt => ?_
  obtain ⟨s, hs⟩ := getElem?_of_lt hlt
  obtain ⟨payload, hs'⟩ := h _ s hs
  exact Nat.lt_irrefl _ (lt_of_getElem? hs')

theorem Reworks.extends {change : Option (StepId × Payload)} (h : Reworks c c' change) : c.Extends c' := by
  intro id s hs
  cases h with
  | keeps steps => exact ⟨s.slot, by rw [steps, hs]⟩
  | registers steps =>
    refine ⟨s.slot, ?_⟩
    rw [steps, Array.getElem?_push, if_neg (show id ≠ c.steps.size from Nat.ne_of_lt (lt_of_getElem? hs)), hs]
  | puts there steps =>
    rw [steps, Array.getElem?_modify, hs]
    split
    · exact ⟨_, rfl⟩
    · exact ⟨s.slot, rfl⟩

theorem Sound.reworks (sound : c.Sound) {change : Option (StepId × Payload)} (h : Reworks c c' change)
    (hstates : c.states.size ≤ c'.states.size) : c'.Sound := by
  suffices hstep : ∀ (id : StepId) (s : Step), c'.steps[id]? = some s →
      (∀ next, s.successor = some next → next < id) ∧ s.state < c'.states.size from
    ⟨fun id next s hs => (hstep id s hs).1 next, fun id s hs => (hstep id s hs).2⟩
  have before (id : StepId) (s : Step) (hs : c.steps[id]? = some s) :
      (∀ next, s.successor = some next → next < id) ∧ s.state < c'.states.size :=
    ⟨fun next => sound.down id next s hs, Nat.lt_of_lt_of_le (sound.known id s hs) hstates⟩
  intro id s hs
  cases h with
  | keeps steps => exact before id s (steps ▸ hs)
  | registers steps _ down known =>
    rw [steps, Array.getElem?_push] at hs
    split at hs
    · next hid =>
      cases hs
      exact ⟨hid ▸ down, known⟩
    · exact before id s hs
  | puts there steps =>
    rw [steps, Array.getElem?_modify] at hs
    split at hs
    · obtain ⟨s', hs', rfl⟩ := Option.map_eq_some_iff.1 hs
      exact before id s' hs'
    · exact before id s hs

/-- What is in the slot of a step; there is nothing in that of a step that is not there. -/
def kept (c : Chain) (id : StepId) : Payload := (c.steps[id]?.map Step.slot).getD .none

theorem kept_of_getElem? (h : c.steps[id]? = some s) : c.kept id = s.slot := by rw [kept, h]; rfl

theorem Reworks.kept {op : Operation} (h : Reworks c c' op.puts?) (id : StepId) :
    c'.kept id = op.leaves id (c.kept id) := by
  rw [Operation.leaves]
  generalize op.puts? = change at h
  cases h with
  | keeps steps => rw [Chain.kept, steps, Chain.kept]
  | registers steps empty =>
    rw [Chain.kept, steps, Array.getElem?_push, Chain.kept]
    split
    · next hid => rw [hid, Array.getElem?_eq_none (Nat.le_refl _), Option.map_some, empty]; rfl
    · rfl
  | puts there steps =>
    rw [Chain.kept, steps, Array.getElem?_modify]
    dsimp only
    split
    · next hid =>
      obtain ⟨s, hs⟩ := getElem?_of_lt there
      rw [← hid, hs]
      rfl
    · rfl

/-- **What any number of operations keep.** -/
theorem Becomes.keeps {ops : List Operation} (h : Becomes c ops c') (sound : c.Sound) :
    c'.Sound ∧ c.Extends c' ∧ ∀ id, c'.kept id = ops.foldl (Operation.leaves id) (c.kept id) := by
  induction h with
  | nil => exact ⟨sound, .refl _, fun _ => rfl⟩
  | cons fits _ ih =>
    obtain ⟨hreworks, hstates⟩ := sound.after_reworks fits
    obtain ⟨hsound, hextends, hkept⟩ := ih (sound.reworks hreworks hstates)
    refine ⟨hsound, hreworks.extends.trans hextends, fun id => ?_⟩
    rw [hkept id, hreworks.kept id, List.foldl_cons]

theorem Becomes.trans {ops ops' : List Operation} {c'' : Chain} (h : Becomes c ops c') (h' : Becomes c' ops' c'') :
    Becomes c (ops ++ ops') c'' := by
  induction h with
  | nil => exact h'
  | cons fits _ ih => exact .cons fits (ih h')

theorem Becomes.one {op : Operation} (fits : op.Fits c) (h : op.result c = .ok c') : Becomes c [op] c' :=
  .cons fits (after_of_ok h ▸ .nil)

theorem sound_empty : Sound {} :=
  ⟨fun _ _ _ h => absurd (lt_of_getElem? h) (Nat.not_lt_zero _),
    fun _ _ h => absurd (lt_of_getElem? h) (Nat.not_lt_zero _)⟩

/-! ## Following links -/

/-- **Links lead down**, so following them ends, with no more steps on the way than there are from the first one
down. -/
theorem Sound.exists_route (sound : c.Sound) (id : StepId) (hid : id < c.size) :
    ∃ path, c.Route (some id) path ∧ path.length ≤ id + 1 := by
  induction id using Nat.strongRecOn with
  | ind id ih =>
    obtain ⟨s, hs⟩ := getElem?_of_lt hid
    have link := successor_of_getElem? hs
    cases hnext : s.successor with
    | none => exact ⟨[id], .cons (hnext ▸ link) .nil, Nat.le_add_left 1 id⟩
    | some next =>
      have hlt := sound.down id next s hs hnext
      obtain ⟨path, hpath, hlength⟩ := ih next hlt (Nat.lt_trans hlt hid)
      exact ⟨id :: path, .cons (hnext ▸ link) hpath, Nat.succ_le_succ (Nat.le_trans hlength hlt)⟩

theorem nextLink?_none {i : Invocation} (h : i.successor = none) : c.nextLink? i = none := by rw [nextLink?, h]; rfl

theorem nextLink?_some {i : Invocation} (h : i.successor = some id) (hs : c.steps[id]? = some s) :
    c.nextLink? i = some ⟨id, s.successor, s.slot⟩ := by rw [nextLink?, h, Option.bind_some, hs]; rfl

theorem Linked.knows (linked : c.Linked) (hs : c.steps[id]? = some s) (payload : Payload) :
    c.Knows ⟨id, s.successor, payload⟩ :=
  ⟨lt_of_getElem? hs, linked s (Array.mem_of_getElem? hs)⟩

/-- **Every registered link can be shown**: looking up what follows fails nowhere. -/
theorem Linked.links_eq (linked : c.Linked) (depth : Nat) {i : Invocation} (known : c.Knows i) :
    c.links depth i = .ok ((c.row depth i).map c.shown) := by
  induction depth generalizing i with
  | zero => rfl
  | succ depth ih =>
    obtain ⟨own, hown⟩ := getElem?_of_lt known.step
    rw [links, stage_of_getElem? hown, row, List.map_cons, shown, hown]
    cases hnext : i.successor with
    | none => rw [nextLink?_none hnext]; rfl
    | some next =>
      obtain ⟨s, hs⟩ := getElem?_of_lt (known.successor next hnext)
      have hrest := ih (linked.knows hs s.slot)
      rw [nextLink?_some hnext hs]
      dsimp only
      rw [step_of_getElem? hs]
      dsimp only [bind, Except.bind, pure, Except.pure]
      rw [hrest]
      rfl

/-! ## Steps that are registered on first use -/

/-- The first step that serves stays the first. -/
theorem Extends.findIdx? (h : c.Extends c') {next : StepId} {stage : Stage} {state : StateId}
    (hfound : c.steps.findIdx? (serves next stage state) = some id) :
    c'.steps.findIdx? (serves next stage state) = some id := by
  rw [Array.findIdx?_eq_some_iff_getElem] at hfound ⊢
  obtain ⟨hlt, hserves, hfirst⟩ := hfound
  have later (i : StepId) (hi : i < c.size) : ∃ hi' : i < c'.size,
      serves next stage state c'.steps[i] = serves next stage state c.steps[i] := by
    obtain ⟨payload, hs⟩ := h i _ (Array.getElem?_eq_getElem hi)
    obtain ⟨hi', hs'⟩ := Array.getElem?_eq_some_iff.1 hs
    exact ⟨hi', by rw [hs']; rfl⟩
  obtain ⟨hlt', heq⟩ := later id hlt
  refine ⟨hlt', heq.trans hserves, fun j hj hservesj => ?_⟩
  obtain ⟨_, heqj⟩ := later j (Nat.lt_trans hj hlt)
  exact hfirst j hj (heqj.symm.trans hservesj)

theorem Extends.same (h : c.Extends c') (hid : id < c.size) :
    c'.stage id = c.stage id ∧ c'.successor id = c.successor id ∧ c'.state id = c.state id := by
  obtain ⟨s, hs⟩ := getElem?_of_lt hid
  obtain ⟨payload, hs'⟩ := h id s hs
  have hstage := stage_of_getElem? hs'
  have hsuccessor := successor_of_getElem? hs'
  have hstate := state_of_getElem? hs'
  rw [stage_of_getElem? hs, successor_of_getElem? hs, state_of_getElem? hs]
  exact ⟨hstage, hsuccessor, hstate⟩

/-- **A step that was asked for is found again**, whatever has been done in between. -/
theorem Extends.ensureBefore {next : StepId} (h : c.Extends c') (hs : c.steps[next]? = some s) {stage : Stage}
    (hfound : c.steps.findIdx? (serves next stage s.state) = some id) : c'.ensureBefore next stage = .ok (id, c') := by
  obtain ⟨payload, hs'⟩ := h next s hs
  exact ensureBefore_found hs' (h.findIdx? hfound)

/-! ## The laws -/

/-- One chain has one step more than another: for a stage, before `next`, and with nothing in its slot. -/
structure Adds (c c' : Chain) (next : Option StepId) (stage : Stage) : Prop where
  size : c'.size = c.size + 1
  stage : c'.stage c.size = .ok stage
  successor : c'.successor c.size = .ok next
  slot : c'.slot c.size = .ok .none

theorem addSharing_adds (c : Chain) (next : Option StepId) (stage : Stage) (state : StateId) :
    c.Adds (c.addSharing next stage state).2 next stage ∧
    (c.addSharing next stage state).2.state c.size = .ok state := by
  have hs : (c.addSharing next stage state).2.steps[c.size]? = some { stage, successor := next, state } :=
    Array.getElem?_push_size
  exact ⟨⟨Array.size_push .., stage_of_getElem? hs, successor_of_getElem? hs, slot_of_getElem? hs⟩,
    state_of_getElem? hs⟩

/-- What holds of a chain that operations have made. -/
structure Lawful (ops : List Operation) (c : Chain) : Prop where
  /-- It only grows, and steps keep their stage, their successor and their state. -/
  grows : ∀ later c', c.Becomes later c' → c.size ≤ c'.size ∧
    ∀ id < c.size, c'.stage id = c.stage id ∧ c'.successor id = c.successor id ∧ c'.state id = c.state id
  /-- What follows a step has a smaller number. -/
  descends : ∀ id next, c.successor id = .ok (some next) → next < id
  /-- To follow links ends, within as many steps as there are. -/
  ends : ∀ id < c.size, ∃ path, c.Route (some id) path ∧ path.length ≤ c.size
  /-- A step that is added before another one shares its state. -/
  shares : ∀ next < c.size, ∀ stage,
    ∃ c', c.add (some next) stage = .ok (c.size, c') ∧ c.addBefore next stage = .ok (c.size, c') ∧
      c.Adds c' (some next) stage ∧ c'.state c.size = c'.state next
  /-- One that nothing follows has a state of its own. -/
  alone : ∀ stage, ∃ c', c.add none stage = .ok (c.size, c') ∧ c.Adds c' none stage ∧
    ∀ id < c.size, c'.state id ≠ c'.state c.size
  /-- A step that is asked for is registered on first use, shares the state of its successor, and is found ever
  after. -/
  ensures : ∀ next < c.size, ∀ stage, ∃ id c', c.ensureBefore next stage = .ok (id, c') ∧ c'.stage id = .ok stage ∧
    c'.successor id = .ok (some next) ∧ c'.state id = c'.state next ∧
    (c' = c ∨ id = c.size ∧ c.Adds c' (some next) stage) ∧
    ∀ later c'', c'.Becomes later c'' → c''.ensureBefore next stage = .ok (id, c'')
  /-- What is put into a slot is there, and all other slots are as they were. -/
  fills : ∀ id < c.size, ∀ payload, ∃ c', c.fillSlot id payload = .ok c' ∧ c'.slot id = .ok payload ∧
    ∀ other, other ≠ id → c'.slot other = c.slot other
  /-- What is taken from a slot was put there last; then there is nothing in it, and all other slots are as they
  were. -/
  takes : ∀ id < c.size, ∃ c', c.takeSlot id = .ok (putLast id ops, c') ∧ c'.slot id = .ok .none ∧
    ∀ other, other ≠ id → c'.slot other = c.slot other

/-- The step that serves is for the stage, goes on to `next` and shares the state. -/
theorem of_findIdx? {next : StepId} {stage : Stage} {state : StateId}
    (hfound : c.steps.findIdx? (serves next stage state) = some id) :
    c.stage id = .ok stage ∧ c.successor id = .ok (some next) ∧ c.state id = .ok state := by
  obtain ⟨hlt, hserves, -⟩ := Array.findIdx?_eq_some_iff_getElem.1 hfound
  have hs : c.steps[id]? = some c.steps[id] := Array.getElem?_eq_getElem hlt
  obtain ⟨rfl, hnext, rfl⟩ := serves_iff.1 hserves
  exact ⟨stage_of_getElem? hs, (successor_of_getElem? hs).trans (congrArg _ hnext), state_of_getElem? hs⟩

/-- **A step that is asked for is registered on first use**, and it is the first one that serves. -/
theorem ensureBefore_spec {next : StepId} (h : c.steps[next]? = some s) (stage : Stage) :
    ∃ id c', c.ensureBefore next stage = .ok (id, c') ∧ c'.steps.findIdx? (serves next stage s.state) = some id ∧
      (c' = c ∨ id = c.size ∧ c.Adds c' (some next) stage) := by
  cases hfound : c.steps.findIdx? (serves next stage s.state) with
  | some id => exact ⟨id, c, ensureBefore_found h hfound, hfound, .inl rfl⟩
  | none =>
    refine ⟨_, _, ensureBefore_missing h hfound, ?_, .inr ⟨rfl, (c.addSharing_adds (some next) stage s.state).1⟩⟩
    show (c.steps.push _).findIdx? _ = _
    rw [Array.findIdx?_push, hfound]
    simp [serves]

theorem slot_modify (hid : id < c.size) (payload : Payload) :
    let c' : Chain := { c with steps := c.steps.modify id fun s => { s with slot := payload } }
    c'.slot id = .ok payload ∧ ∀ other, other ≠ id → c'.slot other = c.slot other := by
  intro c'
  obtain ⟨s, hs⟩ := getElem?_of_lt hid
  constructor
  · have hs' : c'.steps[id]? = some { s with slot := payload } := by rw [Array.getElem?_modify, if_pos rfl, hs]; rfl
    exact slot_of_getElem? hs'
  · intro other hother
    rw [slot, slot, step, step, Array.getElem?_modify, if_neg hother.symm, Array.size_modify]

theorem Sound.shares (sound : c.Sound) {next : StepId} (hnext : next < c.size) (stage : Stage) :
    ∃ c', c.add (some next) stage = .ok (c.size, c') ∧ c.addBefore next stage = .ok (c.size, c') ∧
      c.Adds c' (some next) stage ∧ c'.state c.size = c'.state next := by
  obtain ⟨s, hs⟩ := getElem?_of_lt hnext
  obtain ⟨hadds, hstate⟩ := c.addSharing_adds (some next) stage s.state
  obtain ⟨-, -, hsame⟩ := (sound.addSharing_reworks hs stage).extends.same hnext
  exact ⟨_, add_some hs stage, add_some hs stage, hadds, hstate.trans (hsame.trans (state_of_getElem? hs)).symm⟩

theorem Sound.alone (sound : c.Sound) (stage : Stage) :
    ∃ c', c.add none stage = .ok (c.size, c') ∧ c.Adds c' none stage ∧
      ∀ id < c.size, c'.state id ≠ c'.state c.size := by
  obtain ⟨hadds, hstate⟩ := c.addState.2.addSharing_adds none stage c.addState.1
  refine ⟨_, rfl, ⟨hadds.size, hadds.stage, hadds.successor, hadds.slot⟩, fun id hid hsame => ?_⟩
  obtain ⟨s, hs⟩ := getElem?_of_lt hid
  have hs' : (c.addState.2.addSharing none stage c.addState.1).2.steps[id]? = some s :=
    (Array.getElem?_push ..).trans ((if_neg (Nat.ne_of_lt hid)).trans hs)
  -- The state of an earlier step was there before, and that of the new one was not.
  have hold : s.state = c.states.size := Except.ok.inj ((state_of_getElem? hs').symm.trans (hsame.trans hstate))
  exact absurd (sound.known id s hs) (Nat.not_lt.2 (Nat.le_of_eq hold.symm))

theorem Sound.ensures (sound : c.Sound) {next : StepId} (hnext : next < c.size) (stage : Stage) :
    ∃ id c', c.ensureBefore next stage = .ok (id, c') ∧ c'.stage id = .ok stage ∧
      c'.successor id = .ok (some next) ∧ c'.state id = c'.state next ∧
      (c' = c ∨ id = c.size ∧ c.Adds c' (some next) stage) ∧
      ∀ later c'', c'.Becomes later c'' → c''.ensureBefore next stage = .ok (id, c'') := by
  obtain ⟨s, hs⟩ := getElem?_of_lt hnext
  obtain ⟨id, c', hresult, hfound, hadded⟩ := ensureBefore_spec hs stage
  have hafter : c.after (.ensureBefore next stage) = c' := after_of_ok (by rw [Operation.result, hresult]; rfl)
  obtain ⟨hreworks, hstates⟩ := sound.after_reworks (show (Operation.ensureBefore next stage).Fits c from trivial)
  rw [hafter] at hreworks hstates
  obtain ⟨hstage, hsuccessor, hstate⟩ := of_findIdx? hfound
  obtain ⟨-, -, hsame⟩ := hreworks.extends.same hnext
  refine ⟨id, c', hresult, hstage, hsuccessor, hstate.trans (hsame.trans (state_of_getElem? hs)).symm, hadded,
    fun later c'' hlater => ?_⟩
  obtain ⟨-, hextends, -⟩ := hlater.keeps (sound.reworks hreworks hstates)
  obtain ⟨payload, hs'⟩ := hreworks.extends next s hs
  exact hextends.ensureBefore hs' hfound

end Chain

/-- **Steps stay as they were registered**, links lead down, a step that is asked for is found again, and slots are kept
apart: these laws hold of every chain that has been made of the empty one, by whatever operations in whatever order. -/
theorem chain_keeps_the_laws {ops : List Chain.Operation} {c : Chain} (h : Chain.Becomes {} ops c) :
    Chain.Lawful ops c := by
  obtain ⟨sound, -, hkept⟩ := h.keeps Chain.sound_empty
  refine ⟨fun later c' hlater => ?_, fun id next hnext => ?_, fun id hid => ?_, fun next => sound.shares, sound.alone,
    fun next => sound.ensures, fun id hid payload => ?_, fun id hid => ?_⟩
  · obtain ⟨-, hextends, -⟩ := hlater.keeps sound
    exact ⟨hextends.size_le, fun id => hextends.same⟩
  · obtain ⟨s, hs, hsuccessor⟩ := Chain.getElem?_of_successor hnext
    exact sound.down id next s hs hsuccessor
  · obtain ⟨path, hpath, hlength⟩ := sound.exists_route id hid
    exact ⟨path, hpath, Nat.le_trans hlength hid⟩
  · obtain ⟨hfilled, hothers⟩ := Chain.slot_modify hid payload
    exact ⟨_, Chain.fillSlot_of_lt hid payload, hfilled, hothers⟩
  · obtain ⟨s, hs⟩ := Chain.getElem?_of_lt hid
    obtain ⟨hemptied, hothers⟩ := Chain.slot_modify hid .none
    have hlast : s.slot = Chain.putLast id ops := (Chain.kept_of_getElem? hs).symm.trans (hkept id)
    exact ⟨_, hlast ▸ Chain.takeSlot_of_getElem? hs, hemptied, hothers⟩

/-- A step that is like the one asked for, but shares a state of its own, is not taken for it; the one that is
registered instead is found again after the slot of its successor has been emptied. -/
theorem foreign_state_is_told_apart :
    ∃ c c' taken, Chain.Becomes {} [.add none .eval, .addBefore 0 .read, .addState, .addSharing (some 1) .print 1,
        .fillSlot 1 (.resume true)] c ∧
      c.ensureBefore 1 .print = .ok (3, c') ∧ c'.takeSlot 1 = .ok (.resume true, taken) ∧
      taken.ensureBefore 1 .print = .ok (3, taken) := by
  let ops : List Chain.Operation :=
    [.add none .eval, .addBefore 0 .read, .addState, .addSharing (some 1) .print 1, .fillSlot 1 (.resume true)]
  let c : Chain := ops.foldl Chain.after {}
  have made : Chain.Becomes {} ops c :=
    .cons trivial (.cons trivial (.cons trivial
      (.cons ⟨fun next h => by cases h; decide, by decide⟩ (.cons (show (1 : Nat) < 3 by decide) .nil))))
  have laws := chain_keeps_the_laws made
  obtain ⟨id, c', hensure, -, -, -, -, hlater⟩ := laws.ensures 1 (show (1 : Nat) < 3 by decide) .print
  have hid : (c.ensureBefore 1 .print).toOption.map Prod.fst = some 3 := by decide +kernel
  rw [hensure] at hid
  obtain rfl : id = 3 := Option.some.inj hid
  have ensured : c.Becomes [.ensureBefore 1 .print] c' := .one trivial (by rw [Chain.Operation.result, hensure]; rfl)
  have hthere : 1 < c'.size := Nat.lt_of_lt_of_le (show (1 : Nat) < 3 by decide) (laws.grows _ c' ensured).1
  obtain ⟨taken, htake, -⟩ := (chain_keeps_the_laws (made.trans ensured)).takes 1 hthere
  have emptied : c'.Becomes [.takeSlot 1] taken := .one hthere (by rw [Chain.Operation.result, htake]; rfl)
  exact ⟨c, c', taken, made, hensure, htake, hlater _ taken emptied⟩

end LispSession
