import CallFlow.Proofs.Construction.Cost
import CallFlow.Proofs.Construction.Generation
import CallFlow.Proofs.Graph

/-! What a construction knows, by name, and what is done to it. A list of findings that is enacted
is known afterwards unless a node was refused; in any case nothing else is. -/

namespace CallFlow

/-- The kind of the call of a node at a place. -/
def Setup.kindOf? (u : Setup) (n : Role) (pc : Nat) : Option CallKind :=
  match n.1 with
  | .fakeRoot => some .call
  | _ => (u.callOf? n pc).map (·.kind)

namespace Construction

/-- What the nodes of the graph stand for. -/
def roles (c : Construction) : Nat → Option Role := c.graph.methods.value?

/-- What a construction knows. -/
inductive Knows (c : Construction) : Finding Role → Prop
  | solver {j} : c.solver.Knows c.roles j → Knows c j
  | node {i n} : c.roles i = some n → Knows c (.node n)
  | site {i n site} : c.roles i = some n → c.graph.HasSite i site → Knows c (.site n site)
  | edge {i n site k m} : c.roles i = some n → c.graph.Runs i site k → c.roles k = some m →
      Knows c (.edge n site m)
  | binding {b : Binding} {e : Encounter} : c.bindings.contains b = true →
      c.solver.Means c.roles b e →
      Knows c (.binding e.caller e.pc e.callee e.function e.dispatch)

/-- All numbers of a construction were handed out, and each call is one of its node. -/
structure Valid (u : Setup) (c : Construction) : Prop where
  solver : c.solver.Valid c.roles
  graph : c.graph.WellFormed
  root : c.roles CallGraph.fakeRoot = some .root
  kinds : ∀ i n site, c.roles i = some n → c.graph.HasSite i site →
    u.kindOf? n site.pc = some site.kind
  bindings : ∀ b, c.bindings.contains b = true → ∃ e, c.solver.Means c.roles b e
  queued : ∀ b, .target b ∈ c.solver.worklist.items → c.bindings.contains b = true

/-- One construction is another one, grown. -/
structure Grows (c d : Construction) : Prop where
  solver : c.solver.Grows d.solver
  roles : c.graph.methods.Extends d.graph.methods
  sites : ∀ i site, c.graph.HasSite i site → d.graph.HasSite i site
  runs : ∀ i site k, c.graph.Runs i site k → d.graph.Runs i site k
  bindings : ∀ b, c.bindings.contains b = true → d.bindings.contains b = true
  /-- A new node waits to be visited, if it runs a function. -/
  visits : ∀ i n, d.roles i = some n → n.1.function?.isSome →
    c.roles i = some n ∨ .visit i ∈ d.solver.worklist.items
  /-- A new binding waits. -/
  targets : ∀ b, d.bindings.contains b = true →
    c.bindings.contains b = true ∨ .target b ∈ d.solver.worklist.items
  full : c.ceilingHit = true → d.ceilingHit = true

variable {u : Setup} {c d e : Construction}

theorem Grows.refl (c : Construction) : c.Grows c where
  solver := .refl _
  roles := .refl _
  sites _ _ here := here
  runs _ _ _ here := here
  bindings _ here := here
  visits _ _ here _ := .inl here
  targets _ here := .inl here
  full here := here

theorem Grows.trans (first : c.Grows d) (second : d.Grows e) : c.Grows e where
  solver := first.solver.trans second.solver
  roles := first.roles.trans second.roles
  sites i site here := second.sites i site (first.sites i site here)
  runs i site k here := second.runs i site k (first.runs i site k here)
  bindings b here := second.bindings b (first.bindings b here)
  visits i n here function := by
    rcases second.visits i n here function with before | waits
    · exact (first.visits i n before function).imp_right (second.solver.items _)
    · exact .inr waits
  targets b here := by
    rcases second.targets b here with before | waits
    · exact (first.targets b before).imp_right (second.solver.items _)
    · exact .inr waits
  full here := second.full (first.full here)

theorem Grows.open (grown : c.Grows d) (below : d.ceilingHit = false) : c.ceilingHit = false := by
  cases hit : c.ceilingHit with
  | false => rfl
  | true => exact absurd (grown.full hit) (Bool.eq_false_iff.mp below)

theorem Valid.knows_solver_of_extends (valid : c.Valid u)
    (grown : c.graph.methods.Extends d.graph.methods) {j : Finding Role}
    (known : c.solver.Knows c.roles j) : c.solver.Knows d.roles j :=
  (valid.solver.knows_widen grown j).mpr known

theorem Grows.means (grown : c.Grows d) {b : Binding} {x : Encounter}
    (means : c.solver.Means c.roles b x) : d.solver.Means d.roles b x where
  caller := grown.roles _ _ means.caller
  callee := grown.roles _ _ means.callee
  function := grown.solver.objects _ _ means.function
  pc := means.pc
  dispatch := means.dispatch

theorem Knows.mono {j : Finding Role} (known : c.Knows j) (valid : c.Valid u) (grown : c.Grows d) :
    d.Knows j := by
  cases known with
  | solver known =>
      exact .solver ((valid.knows_solver_of_extends grown.roles known).mono grown.solver)
  | node here => exact .node (grown.roles _ _ here)
  | site here found => exact .site (grown.roles _ _ here) (grown.sites _ _ found)
  | edge here run there =>
      exact .edge (grown.roles _ _ here) (grown.runs _ _ _ run) (grown.roles _ _ there)
  | binding found means => exact .binding (grown.bindings _ found) (grown.means means)

/-- A binding that means something after some growth meant the same before. -/
theorem Valid.means_of_grows (valid : c.Valid u) (grown : c.Grows d) {b : Binding}
    {x : Encounter} (found : c.bindings.contains b = true) (means : d.solver.Means d.roles b x) :
    c.solver.Means c.roles b x := by
  obtain ⟨y, before⟩ := valid.bindings b found
  obtain rfl := (grown.means before).unique means
  exact before

/-- The second construction is what the first one becomes when a list of findings is enacted. -/
structure Enacts (u : Setup) (c d : Construction) (js : List (Finding Role)) : Prop where
  valid : d.Valid u
  grows : c.Grows d
  accounts : c.Accounts u d
  known : d.ceilingHit = false → ∀ j ∈ js, d.Knows j
  sound : ∀ D : Finding Role → Prop, Solver.Passing D → (∀ j, c.Knows j → D j) →
    (∀ j ∈ js, D j) → ∀ j, d.Knows j → D j

variable {js ks : List (Finding Role)}

theorem Enacts.refl (valid : c.Valid u) : Enacts u c c [] where
  valid := valid
  grows := .refl c
  accounts := .refl u c
  known := by simp
  sound _ _ before _ := before

theorem Enacts.trans (first : Enacts u c d js) (second : Enacts u d e ks) :
    Enacts u c e (js ++ ks) where
  valid := second.valid
  grows := first.grows.trans second.grows
  accounts := first.accounts.trans second.accounts
  known below j here := by
    rcases List.mem_append.mp here with here | here
    · exact (first.known (second.grows.open below) j here).mono first.valid second.grows
    · exact second.known below j here
  sound D passing before all := by
    refine second.sound D passing ?_ fun j here => all j (List.mem_append_right _ here)
    exact first.sound D passing before fun j here => all j (List.mem_append_left _ here)

theorem Enacts.congr (enacted : Enacts u c d js) (same : ∀ j, j ∈ ks ↔ j ∈ js) :
    Enacts u c d ks where
  valid := enacted.valid
  grows := enacted.grows
  accounts := enacted.accounts
  known below j member := enacted.known below j ((same j).mp member)
  sound D passing before all :=
    enacted.sound D passing before fun j member => all j ((same j).mpr member)

/-- Once a node was refused, nothing has to be known. -/
theorem Enacts.of_full (enacted : Enacts u c d js) (full : d.ceilingHit = true)
    (within : ∀ j ∈ js, j ∈ ks) : Enacts u c d ks where
  valid := enacted.valid
  grows := enacted.grows
  accounts := enacted.accounts
  known below := absurd full (Bool.eq_false_iff.mp below)
  sound D passing before all :=
    enacted.sound D passing before fun j member => all j (within j member)

theorem Enacts.foldl {α : Type} {f : Construction → α → Construction}
    {g : α → List (Finding Role)} {P : Construction → Prop}
    (stable : ∀ c d : Construction, c.Grows d → P c → P d) (xs : List α)
    (each : ∀ c : Construction, c.Valid u → P c → ∀ x ∈ xs, Enacts u c (f c x) (g x))
    (valid : c.Valid u) (start : P c) : Enacts u c (xs.foldl f c) (xs.flatMap g) := by
  induction xs generalizing c with
  | nil => exact .refl valid
  | cons x xs ih =>
      have first := each c valid start x List.mem_cons_self
      have rest := ih
        (fun c valid here y member => each c valid here y (List.mem_cons_of_mem x member))
        first.valid (stable _ _ first.grows start)
      exact first.trans rest

theorem Enacts.of_solver (valid : c.Valid u) {t : Solver}
    (enacted : Solver.Enacts c.roles c.solver t js) : Enacts u c { c with solver := t } js := by
  have grown : c.Grows { c with solver := t } :=
    { solver := enacted.grows
      roles := .refl _
      sites := fun _ _ here => here
      runs := fun _ _ _ here => here
      bindings := fun _ here => here
      visits := fun _ _ here _ => .inl here
      targets := fun _ here => .inl here
      full := fun here => here }
  refine ⟨⟨enacted.valid, valid.graph, valid.root, valid.kinds, fun b found => ?_,
    fun b waits => ?_⟩, grown,
    accounts_of_solver (enacted.builds.accounts valid.solver.ascending),
    fun _ j member => .solver (enacted.known j member), ?_⟩
  · obtain ⟨x, means⟩ := valid.bindings b found
    exact ⟨x, grown.means means⟩
  · exact valid.queued b (enacted.builds.queues.mem_of_mem rfl waits)
  · intro D passing before all j known
    cases known with
    | solver known =>
        exact enacted.sound D passing (fun j known => before j (.solver known)) all j known
    | node here => exact before _ (.node here)
    | site here found => exact before _ (.site here found)
    | edge here run there => exact before _ (.edge here run there)
    | binding found means =>
        exact before _ (.binding found (valid.means_of_grows grown found means))

/-- What is counted, and that a node was refused, changes nothing that is known. -/
theorem Enacts.of_notes (valid : c.Valid u) {visited : Nat} {worked : List Nat} {ceilingHit : Bool}
    (full : c.ceilingHit = true → ceilingHit = true)
    (accounts : c.Accounts u { c with visited, worked, ceilingHit }) :
    Enacts u c { c with visited, worked, ceilingHit } [] := by
  have grown : c.Grows { c with visited, worked, ceilingHit } :=
    ⟨.refl _, .refl _, fun _ _ here => here, fun _ _ _ here => here, fun _ here => here,
      fun _ _ here _ => .inl here, fun _ here => .inl here, full⟩
  refine ⟨⟨valid.solver, valid.graph, valid.root, valid.kinds, valid.bindings, valid.queued⟩, grown,
    accounts, by simp, fun D passing before all j known => before j ?_⟩
  cases known with
  | solver known => exact .solver known
  | node here => exact .node here
  | site here found => exact .site here found
  | edge here run there => exact .edge here run there
  | binding found means => exact .binding found means

theorem Enacts.of_counts (valid : c.Valid u) (visited : Nat) (worked : List Nat) :
    Enacts u c { c with visited, worked } [] :=
  .of_notes valid id (accounts_of_counts c visited worked)

end Construction

end CallFlow
