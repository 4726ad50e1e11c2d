import CallFlow.Proofs.Construction.Evolution
import CallFlow.Proofs.Construction.Functions
import CallFlow.Proofs.Construction.Run
import CallFlow.Proofs.Flow.Range

/-! A construction in which a lookup may fail. Where a step silently does nothing because something
is missing, this one has no answer; on valid states that are free of marks it answers what the step
gives. -/

namespace CallFlow

/-- A fold whose steps all answer, on states with a property that the steps keep. -/
theorem foldlM_eq_some {σ α : Type} {P : σ → Prop} {f? : σ → α → Option σ} {f : σ → α → σ}
    (xs : List α) (each : ∀ s, P s → ∀ x ∈ xs, f? s x = some (f s x) ∧ P (f s x)) {s : σ}
    (start : P s) : xs.foldlM f? s = some (xs.foldl f s) ∧ P (xs.foldl f s) := by
  induction xs generalizing s with
  | nil => exact ⟨rfl, start⟩
  | cons x xs ih =>
      obtain ⟨answer, kept⟩ := each s start x List.mem_cons_self
      rw [List.foldlM_cons, answer]
      exact ih (fun s here y member => each s here y (List.mem_cons_of_mem x member)) kept

namespace Construction

section Checked

variable (u : Setup)

/-- Adds an instruction of a node that has a row of calls. -/
def addInstruction? (n : Node) (f : FunctionBody) (c : Construction) (i : Instruction × Nat) :
    Option Construction :=
  if n.id < c.graph.calls.size then some (c.addInstruction u n f i) else none

def visit? (c : Construction) (id : Nat) : Option Construction :=
  match c.graph.node? id, c.body? u id with
  | some n, some f =>
    f.instructions.zipIdx.foldlM (addInstruction? u n f)
      { c with visited := c.visited + 1, worked := f.instructions.length :: c.worked }
  | _, _ => none

/-- Lets a node that has a row of calls run another one. There is none only beyond the ceiling. -/
def connect? (c : Construction) (caller : Nat) (site : CallSite) (m : Method) (ctx : Context) :
    Option (Option Nat × Construction) :=
  let callee := c.connect u caller site m ctx
  if caller < c.graph.calls.size ∧ (callee.1.isSome ∨ callee.2.ceilingHit) then some callee
  else none

/-- The objects of a variable, whose location has a cell if it has a number. -/
def objectsOfVar? (c : Construction) (id : Nat) (v : VarId) : Option (List Nat) :=
  match c.solver.locations.find? (.var id v) with
  | some k => if k < c.solver.cells.size then some (c.solver.facts k).toList else none
  | none => some []

/-- Lets a call of a node that exists run a function. -/
def dispatchFunction? (call : PendingCall) (code : Invocation) (f : FunctionId) (object : Nat)
    (c : Construction) : Option Construction :=
  match c.graph.node? call.caller with
  | none => none
  | some caller =>
    let site : CallSite := ⟨call.pc, code.kind⟩
    let receivers := match receiverVar? call.dispatch code with
      | some v => c.objectsOfVar? call.caller v
      | none => some []
    receivers.bind fun receivers =>
      let ctx := u.algorithm.select ⟨caller, site, call.dispatch, f, receivers⟩
      (c.connect? u call.caller site (.function f) ctx).map fun callee =>
        match callee.1 with
        | none => callee.2
        | some id => callee.2.addBinding ⟨call.caller, call.pc, id, object, call.dispatch⟩

def dispatchTarget? (call : PendingCall) (code : Invocation) (c : Construction) :
    DispatchTarget → Option Construction
  | .function f object => c.dispatchFunction? u call code f object
  | .builtin b =>
    (c.connect? u call.caller ⟨call.pc, code.kind⟩ (.builtin b) .everywhere).map (·.2)
  | .reflective d => some (c.dispatchReceiver call code d)

/-- Dispatches a call that exists. -/
def dispatch? (c : Construction) (found : PendingCall × IdSet) : Option Construction :=
  match c.call? u found.1.caller found.1.pc with
  | none => none
  | some code =>
    (c.solver.dispatchTargets u.callsReceiver found.1.dispatch found.2).foldlM
      (dispatchTarget? u found.1 code) c

def propagate? (c : Construction) (k : Nat) : Option Construction :=
  let passed := c.solver.propagate k
  if k < c.solver.cells.size then passed.1.foldlM (dispatch? u) { c with solver := passed.2 }
  else none

def bind? (c : Construction) (b : Binding) : Option Construction :=
  match c.graph.node? b.caller, c.body? u b.caller, c.call? u b.caller b.pc,
      c.body? u b.callee with
  | some caller, some f, some call, some callee =>
    some { c with
      solver := c.solver.bind u.heap ⟨b.caller, caller.context, f.id, b.pc⟩ b call callee }
  | _, _, _, _ => none

/-- The construction, unless a location was asked for that is out of range. -/
def whole? (c : Construction) : Option Construction :=
  if c.solver.dangling then none else some c

def process? (c : Construction) (item : WorkItem) : Option Construction :=
  let done := match item with
    | .propagate k => c.propagate? u k
    | .visit id => c.visit? u id
    | .target b => c.bind? u b
  done.bind whole?

def advance? (answer : Option CancelReason) (c : Construction) :
    Option (Option Completion × Construction) :=
  if c.ceilingHit then some (some (.cut (.nodeBudget (u.maxNodes.getD 0))), c)
  else
    match c.solver.next? with
    | none => some (some .complete, c)
    | some (item, solver) =>
      match answer with
      | some why => some (some (.cut (.canceled why)), c)
      | none =>
        ({ c with solver, iterations := c.iterations + 1 }.process? u item).map fun c => (none, c)

def runWithin? (monitor : Nat → Option CancelReason) (fuel : Nat) (c : Construction) :
    Option (Completion × Construction) :=
  match fuel with
  | 0 => some (.cut .stepLimit, c)
  | fuel + 1 =>
    match c.advance? u (monitor c.iterations) with
    | none => none
    | some (some completion, c) => some (completion, c)
    | some (none, c) => c.runWithin? monitor fuel

def addEntryPoint? (c : Construction) (e : FunctionId × Nat) : Option Construction :=
  let site : CallSite := ⟨e.2, .call⟩
  if CallGraph.fakeRoot < c.graph.calls.size then
    let c := { c with graph := c.graph.addSite CallGraph.fakeRoot site }
    (c.connect? u CallGraph.fakeRoot site (.function e.1) .everywhere).map (·.2)
  else none

def start? : Option Construction :=
  (u.program.entryPoints.zipIdx.foldlM (addEntryPoint? u) (seeded u)).bind whole?

end Checked

/-- The second construction is valid, has grown from the first one, is marked no more than that one,
and has only nodes with functions to visit in addition. -/
structure Leads (u : Setup) (c d : Construction) : Prop where
  valid : d.Valid u
  grows : c.Grows d
  dangling : d.solver.dangling = c.solver.dangling
  visits : ∀ i, .visit i ∈ d.solver.worklist.items → .visit i ∈ c.solver.worklist.items ∨
    ∃ n, d.roles i = some n ∧ n.1.function?.isSome

variable {u : Setup} {c d e : Construction} {n : Role} {js : List (Finding Role)}

namespace Leads

theorem refl (valid : c.Valid u) : Leads u c c :=
  ⟨valid, .refl c, rfl, fun _ waits => .inl waits⟩

theorem trans (first : Leads u c d) (second : Leads u d e) : Leads u c e where
  valid := second.valid
  grows := first.grows.trans second.grows
  dangling := second.dangling.trans first.dangling
  visits i waits := by
    rcases second.visits i waits with before | new
    · rcases first.visits i before with old | ⟨n, here, function⟩
      · exact .inl old
      · exact .inr ⟨n, second.grows.roles _ _ here, function⟩
    · exact .inr new

theorem of_builds (enacted : Enacts u c d js) (builds : c.solver.Builds d.solver) :
    Leads u c d where
  valid := enacted.valid
  grows := enacted.grows
  dangling := builds.dangling
  visits _ waits := .inl (builds.queues.mem_of_mem rfl waits)

theorem of_solver (valid : c.Valid u) {t : Solver}
    (enacted : Solver.Enacts c.roles c.solver t js) : Leads u c { c with solver := t } :=
  of_builds (.of_solver valid enacted) enacted.builds

theorem of_solver_eq (enacted : Enacts u c d js) (same : d.solver = c.solver) : Leads u c d :=
  of_builds enacted (same ▸ .refl)

theorem foldlM {α : Type} {f? : Construction → α → Option Construction}
    {f : Construction → α → Construction} (xs : List α) (valid : c.Valid u)
    (each : ∀ d, Leads u c d → ∀ x ∈ xs, f? d x = some (f d x) ∧ Leads u d (f d x)) :
    xs.foldlM f? c = some (xs.foldl f c) ∧ Leads u c (xs.foldl f c) := by
  refine foldlM_eq_some (P := Leads u c) xs ?_ (.refl valid)
  intro d leads x member
  obtain ⟨answer, more⟩ := each d leads x member
  exact ⟨answer, leads.trans more⟩

end Leads

theorem node?_of_roles {id : Nat} (here : c.roles id = some n) :
    c.graph.node? id = some ⟨id, n.1, n.2⟩ := by
  rw [node?_eq, here]
  rfl

theorem Valid.lt_calls (valid : c.Valid u) {id : Nat} (here : c.roles id = some n) :
    id < c.graph.calls.size := by
  rw [valid.graph.size]
  exact Valid.lt_of_roles here

theorem solver_nodeFor (c : Construction) (m : Method) (ctx : Context) :
    (c.nodeFor u m ctx).2.solver = c.solver ∨ ∃ id, m.function?.isSome ∧
      (c.nodeFor u m ctx).1 = some id ∧
      (c.nodeFor u m ctx).2.solver = c.solver.push (.visit id) := by
  rw [nodeFor]
  split
  · exact .inl rfl
  · split
    · exact .inl rfl
    · dsimp only
      split
      · exact .inr ⟨_, ‹_›, rfl, rfl⟩
      · exact .inl rfl

theorem leads_nodeFor (valid : c.Valid u) (m : Method) (ctx : Context) :
    Leads u c (c.nodeFor u m ctx).2 := by
  obtain ⟨enacted, found⟩ := enacts_nodeFor valid m ctx
  rcases solver_nodeFor (u := u) c m ctx with same | ⟨id, function, node, pushed⟩
  · exact .of_solver_eq enacted same
  · rw [node] at found
    refine ⟨enacted.valid, enacted.grows, ?_, ?_⟩
    · rw [pushed]
      rfl
    · intro i waits
      rw [pushed] at waits
      rcases Worklist.mem_items_of_push waits with before | same
      · exact .inl before
      · cases same
        exact .inr ⟨_, found, function⟩

theorem solver_connect (id : Nat) (site : CallSite) (m : Method) (ctx : Context) :
    (c.connect u id site m ctx).2.solver = (c.nodeFor u m ctx).2.solver := by
  rcases node : c.nodeFor u m ctx with ⟨_ | k, d⟩
  · rw [connect_of_none node]
  · rw [connect_of_some node]

theorem roles_connect (id : Nat) (site : CallSite) (m : Method) (ctx : Context) :
    (c.connect u id site m ctx).2.roles = (c.nodeFor u m ctx).2.roles := by
  rcases node : c.nodeFor u m ctx with ⟨_ | k, d⟩
  · rw [connect_of_none node]
  · rw [connect_of_some node]
    unfold roles
    rw [CallGraph.methods_addEdge]

/-- A node finds what its call runs, unless that was refused. -/
theorem connect?_eq (valid : c.Valid u) {id : Nat} (here : c.roles id = some n) (site : CallSite)
    (kind : u.kindOf? n site.pc = some site.kind) (m : Method) (ctx : Context) :
    c.connect? u id site m ctx = some (c.connect u id site m ctx) ∧
      Leads u c (c.connect u id site m ctx).2 := by
  obtain ⟨enacted, found⟩ := enacts_connect valid here site kind m ctx
  have node := leads_nodeFor valid m ctx
  refine ⟨?_, enacted.valid, enacted.grows, ?_, ?_⟩
  · unfold connect?
    apply if_pos
    refine ⟨valid.lt_calls here, ?_⟩
    -- without a node the ceiling was hit, and that is the one return that is allowed
    revert found
    cases (c.connect u id site m ctx).1 with
    | none => exact fun full => .inr full
    | some k => exact fun _ => .inl rfl
  · rw [solver_connect]
    exact node.dangling
  · rw [solver_connect, roles_connect]
    exact node.visits

theorem leads_addSite (valid : c.Valid u) {id : Nat} (here : c.roles id = some n) (site : CallSite)
    (kind : u.kindOf? n site.pc = some site.kind) :
    Leads u c { c with graph := c.graph.addSite id site } :=
  .of_solver_eq (enacts_addSite valid here site kind) rfl

theorem leads_addBinding (valid : c.Valid u) {b : Binding} {x : Encounter}
    (means : c.solver.Means c.roles b x) : Leads u c (c.addBinding b) := by
  have enacted := enacts_addBinding valid means
  refine ⟨enacted.valid, enacted.grows, ?_, ?_⟩
  · unfold addBinding
    split
    · rfl
    · rfl
  · unfold addBinding
    split
    · exact fun _ waits => .inl waits
    · intro i waits
      rcases Worklist.mem_items_of_push waits with before | same
      · exact .inl before
      · cases same

theorem addInstruction?_eq (valid : c.Valid u) {id : Nat} (here : c.roles id = some n)
    {f : FunctionBody} (body : u.bodyOf? n = some f) {i : Instruction} {pc : Nat}
    (stands : f.instructions[pc]? = some i) :
    c.addInstruction? u ⟨id, n.1, n.2⟩ f (i, pc) =
        some (c.addInstruction u ⟨id, n.1, n.2⟩ f (i, pc)) ∧
      Leads u c (c.addInstruction u ⟨id, n.1, n.2⟩ f (i, pc)) := by
  constructor
  · exact if_pos (valid.lt_calls here)
  · apply Leads.of_builds (enacts_addInstruction valid here body stands)
    exact (Solver.enacts_addInstruction (n := n) valid.solver u.heap ⟨id, n.2, f.id, pc⟩ here rfl
      i).builds

theorem visit?_eq (valid : c.Valid u) {id : Nat} (here : c.roles id = some n) {f : FunctionBody}
    (body : u.bodyOf? n = some f) :
    c.visit? u id = some (c.visit u id) ∧ Leads u c (c.visit u id) := by
  have counted := Enacts.of_counts valid (c.visited + 1) (f.instructions.length :: c.worked)
  have first := Leads.of_solver_eq counted rfl
  unfold visit? visit
  rw [node?_eq, here, body?_eq here, body]
  refine (Leads.foldlM _ first.valid ?_).imp_right first.trans
  rintro d leads ⟨i, pc⟩ member
  exact addInstruction?_eq leads.valid (leads.grows.roles _ _ here) body
    (List.mem_zipIdx_iff_getElem?.mp member)

theorem bind?_eq (valid : c.Valid u) {b : Binding} {x : Encounter}
    (means : c.solver.Means c.roles b x) {f callee : FunctionBody} {call : Invocation}
    (caller : u.bodyOf? x.caller = some f) (here : u.callOf? x.caller x.pc = some call)
    (runs : u.bodyOf? x.callee = some callee) :
    c.bind? u b = some (c.bind u b) ∧ Leads u c (c.bind u b) := by
  have enacted := enacts_bind valid means
  have bound := Solver.enacts_bind valid.solver means u.heap ⟨b.caller, x.caller.2, f.id, b.pc⟩ rfl
    rfl rfl call callee
  have same : c.bind u b = { c with
      solver := c.solver.bind u.heap ⟨b.caller, x.caller.2, f.id, b.pc⟩ b call callee } := by
    unfold bind
    rw [node?_eq, means.caller, body?_eq means.caller, call?_eq means.caller,
      body?_eq means.callee, means.pc, caller, here, runs]
    rfl
  constructor
  · rw [same]
    unfold bind?
    rw [node?_eq, means.caller, body?_eq means.caller, call?_eq means.caller,
      body?_eq means.callee, means.pc, caller, here, runs]
    rfl
  · apply Leads.of_builds enacted
    rw [same]
    exact bound.builds

theorem addEntryPoint?_eq (valid : c.Valid u) (e : FunctionId × Nat) :
    c.addEntryPoint? u e = some (c.addEntry u e) ∧ Leads u c (c.addEntry u e) := by
  have site := leads_addSite valid valid.root ⟨e.2, .call⟩ rfl
  obtain ⟨answer, run⟩ := connect?_eq site.valid site.valid.root ⟨e.2, .call⟩ rfl
    (.function e.1) .everywhere
  constructor
  · rw [addEntryPoint?, addEntry, if_pos (valid.lt_calls valid.root)]
    exact congrArg (Option.map Prod.snd) answer
  · rw [addEntry]
    exact site.trans run

theorem objectsOfVar?_eq (valid : c.Valid u) (id : Nat) (v : VarId) :
    c.objectsOfVar? id v = some (c.objectsOfVar id v) := by
  rw [objectsOfVar?, objectsOfVar]
  cases found : c.solver.locations.find? (.var id v) with
  | none => rfl
  | some k =>
      apply if_pos
      rw [valid.solver.size]
      exact Numbering.lt_size_of_value? ((Numbering.find?_eq_some_iff _ _ _).mp found)

variable {call : PendingCall} {code : Invocation}

theorem leads_noteBinding {i : Nat} {o : AbstractObject} {m : Role} {x : Option Nat × Construction}
    (valid : x.2.Valid u) (here : x.2.roles call.caller = some n)
    (callee : ∀ k, x.1 = some k → x.2.roles k = some m)
    (handed : x.2.solver.objects.value? i = some o) : Leads u x.2 (noteBinding call i x) := by
  obtain ⟨id, d⟩ := x
  cases id with
  | none => exact .refl valid
  | some id =>
      exact leads_addBinding (x := ⟨n, call.pc, m, o, call.dispatch⟩) valid
        ⟨here, callee id rfl, handed, rfl, rfl⟩

theorem dispatchFunction?_eq (valid : c.Valid u) (here : c.roles call.caller = some n)
    (kind : u.kindOf? n call.pc = some code.kind) (f : FunctionId) {i : Nat} {o : AbstractObject}
    (handed : c.solver.objects.value? i = some o) :
    c.dispatchFunction? u call code f i = some (c.dispatchFunction u call code f i) ∧
      Leads u c (c.dispatchFunction u call code f i) := by
  have node := node?_of_roles here
  have connected := connect?_eq valid here ⟨call.pc, code.kind⟩ kind (.function f)
  -- no context depends on the receivers, so it is enough that they are found
  have receivers : ∃ ids, (match receiverVar? call.dispatch code with
      | some v => c.objectsOfVar? call.caller v
      | none => some []) = some ids := by
    cases receiverVar? call.dispatch code with
    | none => exact ⟨_, rfl⟩
    | some v => exact ⟨_, objectsOfVar?_eq valid call.caller v⟩
  obtain ⟨ids, objects⟩ := receivers
  constructor
  · rw [dispatchFunction_eq node]
    unfold dispatchFunction?
    simp only [node, objects, Option.bind_some, Algorithm.select_eq, (connected _).1,
      Option.map_some]
    generalize c.connect u call.caller ⟨call.pc, code.kind⟩ (.function f) _ = callee
    obtain ⟨id, d⟩ := callee
    cases id with
    | none => rfl
    | some id => rfl
  · rw [dispatchFunction_eq node]
    have leads := (connected (u.algorithm.contextOf n.1 ⟨call.pc, code.kind⟩ call.dispatch)).2
    have found := (enacts_connect valid here ⟨call.pc, code.kind⟩ kind (.function f)
      (u.algorithm.contextOf n.1 ⟨call.pc, code.kind⟩ call.dispatch)).2
    refine leads.trans (leads_noteBinding (m := u.calleeOf n call.pc code.kind call.dispatch f)
      leads.valid (leads.grows.roles _ _ here) ?_ (leads.grows.solver.objects _ _ handed))
    intro k run
    rw [run] at found
    exact found

theorem leads_dispatchReceiver (valid : c.Valid u) (here : c.roles call.caller = some n)
    (d : Dispatch) : Leads u c (c.dispatchReceiver call code d) := by
  cases receiver : code.receiver with
  | none =>
      rw [dispatchReceiver_of_none receiver]
      exact .refl valid
  | some v =>
      rw [dispatchReceiver_of_some receiver]
      have var := Solver.enacts_var valid.solver here v
      have attached := Solver.enacts_addConstraint var.valid (Solver.place?_var here v)
        (Tables.demand?_invoke call.pc d here)
      exact .of_solver valid (var.trans attached)

theorem dispatchTarget?_eq (valid : c.Valid u) (here : c.roles call.caller = some n)
    (found : u.callOf? n call.pc = some code) {i : Nat} {o : AbstractObject}
    (handed : c.solver.objects.value? i = some o) (k : CalleeKind) :
    c.dispatchTarget? u call code (k.target i) = some (c.dispatchTarget u call code (k.target i)) ∧
      Leads u c (c.dispatchTarget u call code (k.target i)) := by
  have kind := kindOf?_of_callOf? found
  cases k with
  | function f => exact dispatchFunction?_eq valid here kind f handed
  | builtin b =>
      obtain ⟨answer, leads⟩ := connect?_eq valid here ⟨call.pc, code.kind⟩ kind
        (.builtin b) .everywhere
      rw [CalleeKind.target, dispatchTarget?, dispatchTarget, answer]
      exact ⟨rfl, leads⟩
  | reflective d => exact ⟨rfl, leads_dispatchReceiver valid here d⟩

theorem dispatch?_eq (valid : c.Valid u) (here : c.roles call.caller = some n)
    (found : u.callOf? n call.pc = some code) {facts : IdSet} :
    c.dispatch? u (call, facts) = some (c.dispatch u (call, facts)) ∧
      Leads u c (c.dispatch u (call, facts)) := by
  unfold dispatch? dispatch
  dsimp only
  rw [call?_eq here, found]
  refine Leads.foldlM _ valid ?_
  intro d leads target member
  obtain ⟨i, -, means⟩ := List.mem_filterMap.mp member
  obtain ⟨k, classified, rfl⟩ := Option.map_eq_some_iff.mp means
  obtain ⟨o, handed, -⟩ := Option.bind_eq_some_iff.mp classified
  exact dispatchTarget?_eq leads.valid (leads.grows.roles _ _ here) found
    (leads.grows.solver.objects _ _ handed) k

/-- The call that a constraint is about exists. -/
def Calls (u : Setup) (c : Construction) (call : PendingCall) : Prop :=
  ∃ n code, c.roles call.caller = some n ∧ u.callOf? n call.pc = some code

theorem propagate?_eq (valid : c.Valid u) {k : Nat} (bound : k < c.solver.cells.size)
    (calls : ∀ call, .invoke call ∈ c.solver.constraints k → c.Calls u call) :
    c.propagate? u k = some (c.propagate u k) ∧ Leads u c (c.propagate u k) := by
  obtain ⟨p, here⟩ := valid.solver.place bound
  obtain ⟨sent, passed, -⟩ := Solver.enacts_propagate valid.solver c.nodesDistinct here
  have moved := Leads.of_solver valid passed
  unfold propagate? propagate
  dsimp only
  rw [if_pos bound]
  refine (Leads.foldlM _ moved.valid ?_).imp_right moved.trans
  rintro d leads ⟨call, facts⟩ member
  obtain ⟨n, code, caller, found⟩ := calls call (Solver.mem_calls_of_propagate member).2
  exact dispatch?_eq leads.valid (leads.grows.roles _ _ caller) found

end Construction

end CallFlow
