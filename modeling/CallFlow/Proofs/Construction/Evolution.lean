import CallFlow.Proofs.Construction.Connecting
import CallFlow.Proofs.Construction.Run

/-! What becomes of the graph: a node gets a call, a call of a node runs another node, or a node
that is new is run by a call of an older one. Invariants that these changes keep hold at every
point. -/

namespace CallFlow

/-- There is room for another node. -/
def CallGraph.HasRoom (u : Setup) (g : CallGraph) : Prop :=
  ∀ limit, u.maxNodes = some limit → g.nodeCount < limit.toNat

/-- The graph with a call of a node that runs the node just added. -/
def CallGraph.joined (id : Nat) (site : CallSite) (added : (Nat × Bool) × CallGraph) : CallGraph :=
  (added.2.addEdge id site added.1.1).2

/-- A graph becomes another one under the hands of a construction. -/
inductive CallGraph.Evolves (u : Setup) (g : CallGraph) : CallGraph → Prop
  | refl : Evolves u g g
  | site {h id site} : Evolves u g h → id < h.nodeCount → Evolves u g (h.addSite id site)
  | edge {h id site k} : Evolves u g h → id < h.nodeCount → k < h.nodeCount →
      Evolves u g (h.addEdge id site k).2
  | node {h id site m ctx} : Evolves u g h → id < h.nodeCount → h.find? m ctx = none →
      h.HasRoom u → Evolves u g (joined id site (h.addNode m ctx))

namespace CallGraph

variable {u : Setup} {g h k : CallGraph}

theorem Evolves.trans (first : g.Evolves u h) (second : h.Evolves u k) : g.Evolves u k := by
  induction second with
  | refl => exact first
  | site _ bound ih => exact ih.site bound
  | edge _ bound callee ih => exact ih.edge bound callee
  | node _ bound new room ih => exact ih.node bound new room

theorem lt_of_node? {id : Nat} {n : Node} (here : g.node? id = some n) : id < g.nodeCount := by
  obtain ⟨m, known, -⟩ := Option.map_eq_some_iff.mp here
  exact Numbering.lt_size_of_value? known

theorem methods_joined (id : Nat) (site : CallSite) (added : (Nat × Bool) × CallGraph) :
    (joined id site added).methods = added.2.methods :=
  methods_addEdge ..

theorem nodeCount_joined {m : Method} {ctx : Context} (new : g.find? m ctx = none) (id : Nat)
    (site : CallSite) : (joined id site (g.addNode m ctx)).nodeCount = g.nodeCount + 1 := by
  have fresh : g.methods.find? (m, ctx) = none := new
  unfold nodeCount
  rw [methods_joined, methods_addNode, Numbering.number_of_new fresh]
  simp [Numbering.size_eq_length_values]

theorem Evolves.extends (evolves : g.Evolves u h) : g.methods.Extends h.methods := by
  induction evolves with
  | refl => exact .refl _
  | site _ _ ih => exact ih
  | edge _ _ _ ih =>
      rw [methods_addEdge]
      exact ih
  | node _ _ _ _ ih =>
      rw [methods_joined]
      exact ih.trans (Numbering.extends_number _ _)

theorem Evolves.nodeCount_le (evolves : g.Evolves u h) : g.nodeCount ≤ h.nodeCount :=
  evolves.extends.size_le

theorem Evolves.bounded {limit : UInt64} (ceiling : u.maxNodes = some limit)
    (evolves : g.Evolves u h) (before : g.nodeCount ≤ limit.toNat) : h.nodeCount ≤ limit.toNat := by
  induction evolves with
  | refl => exact before
  | site _ _ ih => exact ih
  | edge _ _ _ ih =>
      unfold nodeCount
      rw [methods_addEdge]
      exact ih
  | node _ _ new room _ =>
      rw [nodeCount_joined new]
      exact room limit ceiling

end CallGraph

namespace Construction

/-- A construction becomes another one: its graph evolves, and a refusal is never forgotten. -/
structure Evolves (u : Setup) (c d : Construction) : Prop where
  graph : c.graph.Evolves u d.graph
  refused : c.ceilingHit = true → d.ceilingHit = true

variable {u : Setup} {c d e : Construction}

theorem Evolves.refl (u : Setup) (c : Construction) : c.Evolves u c := ⟨.refl, id⟩

theorem Evolves.trans (first : c.Evolves u d) (second : d.Evolves u e) : c.Evolves u e :=
  ⟨first.graph.trans second.graph, second.refused ∘ first.refused⟩

theorem Evolves.of_graph_eq (same : d.graph = c.graph)
    (refused : c.ceilingHit = true → d.ceilingHit = true) : c.Evolves u d :=
  ⟨same ▸ .refl, refused⟩

theorem Evolves.of_graph {g : CallGraph} (evolves : c.graph.Evolves u g) :
    c.Evolves u { c with graph := g } := ⟨evolves, fun refused => refused⟩

theorem Evolves.lt_nodeCount (evolves : c.Evolves u d) {id : Nat} (bound : id < c.graph.nodeCount) :
    id < d.graph.nodeCount :=
  Nat.lt_of_lt_of_le bound evolves.graph.nodeCount_le

theorem Evolves.foldl {α : Type} {f : Construction → α → Construction} {P : Construction → Prop}
    (stable : ∀ c d : Construction, c.Evolves u d → P c → P d)
    (each : ∀ c : Construction, P c → ∀ x, c.Evolves u (f c x)) (xs : List α) (start : P c) :
    c.Evolves u (xs.foldl f c) := by
  induction xs generalizing c with
  | nil => exact .refl u c
  | cons x xs ih =>
      have first := each c start x
      exact first.trans (ih (stable _ _ first start))

theorem hasRoom_of_isFull (room : c.isFull u = false) : c.graph.HasRoom u := by
  intro limit ceiling
  unfold isFull at room
  rw [ceiling] at room
  simpa using room

/-- A call of a node runs the node for a role: an old one, none, or a new one. -/
theorem evolves_connect {id : Nat} (bound : id < c.graph.nodeCount) (site : CallSite) (m : Method)
    (ctx : Context) : c.Evolves u (c.connect u id site m ctx).2 := by
  cases found : c.graph.find? m ctx with
  | some k =>
      have known : c.graph.methods.find? (m, ctx) = some k := found
      have callee := Numbering.lt_size_of_value? ((Numbering.find?_eq_some_iff _ _ _).mp known)
      rw [connect_of_some (nodeFor_of_known found)]
      exact .of_graph (.edge .refl bound callee)
  | none =>
      cases full : c.isFull u with
      | true =>
          rw [connect_of_none (nodeFor_of_full found full)]
          exact .of_graph_eq rfl fun _ => rfl
      | false =>
          -- the node and its edge are one change: nobody calls the node in between
          obtain ⟨t, node⟩ := nodeFor_of_new found full
          have grown : c.graph.Evolves u (.joined id site (c.graph.addNode m ctx)) :=
            .node .refl bound found (hasRoom_of_isFull full)
          rw [connect_of_some node]
          generalize c.graph.addNode m ctx = added at grown ⊢
          exact ⟨grown, fun refused => refused⟩

theorem evolves_addBinding (c : Construction) (b : Binding) : c.Evolves u (c.addBinding b) := by
  unfold addBinding
  split
  · exact .refl u c
  · exact .of_graph_eq rfl fun refused => refused

theorem evolves_addSite {id : Nat} (bound : id < c.graph.nodeCount) (site : CallSite) :
    c.Evolves u { c with graph := c.graph.addSite id site } :=
  .of_graph (.site .refl bound)

theorem evolves_addEntry (root : CallGraph.fakeRoot < c.graph.nodeCount) (e : FunctionId × Nat) :
    c.Evolves u (c.addEntry u e) := by
  have site := evolves_addSite (u := u) root ⟨e.2, .call⟩
  rw [addEntry]
  exact site.trans (evolves_connect (site.lt_nodeCount root) _ _ _)

theorem evolves_noteBinding (call : PendingCall) (object : Nat) (x : Option Nat × Construction) :
    x.2.Evolves u (noteBinding call object x) := by
  obtain ⟨id, c⟩ := x
  cases id with
  | none => exact .refl u c
  | some id => exact evolves_addBinding c _

theorem evolves_dispatchFunction (call : PendingCall) (code : Invocation) (f : FunctionId)
    (object : Nat) (c : Construction) :
    c.Evolves u (c.dispatchFunction u call code f object) := by
  cases here : c.graph.node? call.caller with
  | none =>
      rw [dispatchFunction_of_none here]
      exact .refl u c
  | some caller =>
      rw [dispatchFunction_eq here]
      have connected := evolves_connect (u := u) (CallGraph.lt_of_node? here) ⟨call.pc, code.kind⟩
        (.function f) (u.algorithm.contextOf caller.method ⟨call.pc, code.kind⟩ call.dispatch)
      exact connected.trans (evolves_noteBinding call object _)

theorem evolves_dispatchReceiver (call : PendingCall) (code : Invocation) (d : Dispatch)
    (c : Construction) : c.Evolves u (c.dispatchReceiver call code d) := by
  unfold dispatchReceiver
  split
  · exact .refl u c
  · exact .of_graph_eq rfl fun refused => refused

theorem evolves_dispatchTarget {call : PendingCall} (bound : call.caller < c.graph.nodeCount)
    (code : Invocation) (target : DispatchTarget) :
    c.Evolves u (dispatchTarget u call code c target) := by
  cases target with
  | function f object => exact evolves_dispatchFunction call code f object c
  | builtin b =>
      rw [dispatchTarget]
      exact evolves_connect bound _ _ _
  | reflective d => exact evolves_dispatchReceiver call code d c

theorem lt_of_call? {id pc : Nat} {code : Invocation} (found : c.call? u id pc = some code) :
    id < c.graph.nodeCount := by
  obtain ⟨f, body, -⟩ := Option.bind_eq_some_iff.mp found
  obtain ⟨g, runs, -⟩ := Option.bind_eq_some_iff.mp body
  obtain ⟨n, here, -⟩ := Option.bind_eq_some_iff.mp runs
  exact CallGraph.lt_of_node? here

theorem evolves_dispatch (c : Construction) (found : PendingCall × IdSet) :
    c.Evolves u (c.dispatch u found) := by
  unfold dispatch
  split
  · exact .refl u c
  · rename_i code here
    apply Evolves.foldl (P := fun c => found.1.caller < c.graph.nodeCount)
    · exact fun c d evolves bound => evolves.lt_nodeCount bound
    · exact fun c bound target => evolves_dispatchTarget bound code target
    · exact lt_of_call? here

theorem evolves_propagate (c : Construction) (k : Nat) : c.Evolves u (c.propagate u k) := by
  have passed : c.Evolves u { c with solver := (c.solver.propagate k).2 } :=
    .of_graph_eq rfl fun refused => refused
  exact passed.trans (.foldl (P := fun _ => True) (fun _ _ _ _ => trivial)
    (fun c _ found => evolves_dispatch c found) _ trivial)

theorem evolves_addInstruction {n : Node} (bound : n.id < c.graph.nodeCount) (f : FunctionBody)
    (i : Instruction × Nat) : c.Evolves u (c.addInstruction u n f i) := by
  have site := fun site => evolves_addSite (u := u) bound site
  unfold addInstruction
  constructor
  · dsimp only
    split
    · exact (site _).graph
    · exact .refl
  · exact fun refused => refused

theorem evolves_visit (c : Construction) (id : Nat) : c.Evolves u (c.visit u id) := by
  unfold visit
  split
  · rename_i n f here _
    have counted : c.Evolves u
        { c with visited := c.visited + 1, worked := f.instructions.length :: c.worked } :=
      .of_graph_eq rfl fun refused => refused
    apply counted.trans
    apply Evolves.foldl (P := fun c => n.id < c.graph.nodeCount)
    · exact fun c d evolves bound => evolves.lt_nodeCount bound
    · exact fun c bound i => evolves_addInstruction bound f i
    · obtain ⟨m, known, rfl⟩ := Option.map_eq_some_iff.mp here
      exact Numbering.lt_size_of_value? known
  · exact .refl u c

theorem evolves_bind (c : Construction) (b : Binding) : c.Evolves u (c.bind u b) := by
  unfold bind
  split
  · exact .of_graph_eq rfl fun refused => refused
  · exact .refl u c

theorem evolves_process (c : Construction) (item : WorkItem) : c.Evolves u (c.process u item) := by
  cases item with
  | propagate k => exact evolves_propagate c k
  | visit id => exact evolves_visit c id
  | target b => exact evolves_bind c b

theorem evolves_start (u : Setup) : (seeded u).Evolves u (start u) := by
  apply Evolves.foldl (P := fun c => CallGraph.fakeRoot < c.graph.nodeCount)
  · exact fun c d evolves root => evolves.lt_nodeCount root
  · exact fun c root e => evolves_addEntry root e
  · exact Nat.zero_lt_one

theorem evolves_advance {answer : Option CancelReason} {ended : Option Completion}
    (step : c.advance u answer = (ended, d)) : c.Evolves u d := by
  cases ended with
  | some why =>
      obtain ⟨rfl, -⟩ := advance_eq_some step
      exact .refl u d
  | none =>
      obtain ⟨-, item, rest, -, rfl⟩ := advance_eq_none step
      have taken : c.Evolves u (c.popped rest) := .of_graph_eq rfl fun refused => refused
      exact taken.trans (evolves_process _ item)

/-- However long a run goes on and whatever stops it, its graph evolves. -/
theorem evolves_runWithin (monitor : Nat → Option CancelReason) (fuel : Nat) (c : Construction) :
    c.Evolves u (c.runWithin u monitor fuel).2 := by
  induction fuel generalizing c with
  | zero => exact .refl u c
  | succ fuel ih =>
      unfold Construction.runWithin
      rcases step : c.advance u (monitor c.iterations) with ⟨_ | ended, d⟩
      · exact (evolves_advance step).trans (ih d)
      · exact evolves_advance step

end Construction

end CallFlow
