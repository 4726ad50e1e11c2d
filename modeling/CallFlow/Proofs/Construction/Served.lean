import CallFlow.Proofs.Construction.Evolution
import CallFlow.Proofs.Construction.Inversion

/-! What a call has done. All of it is looked for before it is done, and none of it is ever undone,
so that a call that did once what an object means has nothing to do for it again. -/

namespace CallFlow

namespace SiteTargets

variable {site : CallSite} {f : SiteTargets → SiteTargets} {s : SiteTargets} {ss : List SiteTargets}

/-- What is in a list after a change was there before, or is the one that was changed. -/
theorem mem_of_mem_alter (member : s ∈ alter site f ss) :
    s ∈ ss ∨ s = f { site } ∨ ∃ t ∈ ss, s = f t := by
  induction ss with
  | nil => exact .inr (.inl (List.mem_singleton.mp member))
  | cons t rest ih =>
      unfold alter at member
      split at member
      · rcases List.mem_cons.mp member with rfl | old
        · exact .inr (.inl rfl)
        · exact .inl old
      · split at member
        · rcases List.mem_cons.mp member with rfl | old
          · exact .inr (.inr ⟨t, List.mem_cons_self, rfl⟩)
          · exact .inl (List.mem_cons_of_mem t old)
        · rcases List.mem_cons.mp member with rfl | later
          · exact .inl List.mem_cons_self
          · rcases ih later with old | new | ⟨x, here, same⟩
            · exact .inl (List.mem_cons_of_mem t old)
            · exact .inr (.inl new)
            · exact .inr (.inr ⟨x, List.mem_cons_of_mem t here, same⟩)

end SiteTargets

namespace CallGraph

variable {u : Setup} {g h : CallGraph} {id k : Nat} {site : CallSite}

/-- The targets of every call stand in ascending order. -/
def Sorted (g : CallGraph) : Prop := ∀ id, ∀ s ∈ g.sites id, s.targets.Ascending

theorem Sorted.alter (sorted : g.Sorted) (id : Nat) (site : CallSite)
    {f : SiteTargets → SiteTargets}
    (keeps : ∀ s : SiteTargets, s.targets.Ascending → (f s).targets.Ascending) :
    (g.updateSites id (SiteTargets.alter site f)).Sorted := by
  intro other s member
  by_cases bound : id < g.calls.size
  · rw [sites_updateSites g id _ bound] at member
    split at member
    · rcases SiteTargets.mem_of_mem_alter member with old | rfl | ⟨t, here, rfl⟩
      · exact sorted id s old
      · exact keeps _ IdSet.ascending_empty
      · exact keeps t (sorted id t here)
    · exact sorted other s member
  · -- a node without a row of calls gets none
    have same : (g.updateSites id (SiteTargets.alter site f)).sites other = g.sites other := by
      unfold updateSites sites
      simp only [Array.getD_eq_getD_getElem?, Array.getElem?_modify]
      split
      · rename_i here
        simp [← here, Array.getElem?_eq_none (Nat.le_of_not_lt bound)]
      · rfl
    exact sorted other s (same ▸ member)

theorem Sorted.addEdge (sorted : g.Sorted) (id : Nat) (site : CallSite) (k : Nat) :
    (g.addEdge id site k).2.Sorted := by
  unfold CallGraph.addEdge
  split
  · split
    · exact sorted
    · exact sorted.alter id site fun s ascending => ascending.insert k
  · exact sorted

theorem Evolves.sorted (evolves : g.Evolves u h) (sorted : g.Sorted) : h.Sorted := by
  induction evolves with
  | refl => exact sorted
  | site _ _ ih => exact ih.alter _ _ fun _ ascending => ascending
  | edge _ _ _ ih => exact ih.addEdge _ _ _
  | @node h id site m ctx _ _ _ _ ih =>
      refine Sorted.addEdge (g := (h.addNode m ctx).2) ?_ _ _ _
      intro other s member
      rw [sites_addNode] at member
      exact ih other s member

theorem sorted_new : new.Sorted := by
  intro id s member
  rw [sites_new] at member
  cases member

/-- An edge that is there already is not added. -/
theorem Sorted.addEdge_of_runs (sorted : g.Sorted) (run : g.Runs id site k) :
    (g.addEdge id site k).2 = g := by
  obtain ⟨s, found, -, member⟩ := run
  have ascending := sorted id s (SiteTargets.mem_of_find? found).1
  have known : g.hasEdge id site.pc k = true :=
    (hasEdge_iff_of_site? found k).mpr (ascending.contains_of_mem member)
  unfold CallGraph.addEdge
  rw [known]
  split <;> rfl

/-- No node comes into a graph that has no room. -/
theorem Evolves.methods_of_full (evolves : g.Evolves u h) (full : ¬ g.HasRoom u) :
    h.methods = g.methods := by
  induction evolves with
  | refl => rfl
  | site _ _ ih => exact ih
  | edge _ _ _ ih => exact (methods_addEdge ..).trans ih
  | node _ _ _ room ih =>
      refine absurd (fun limit ceiling => ?_) full
      have below := room limit ceiling
      unfold nodeCount at below ⊢
      rwa [ih] at below

end CallGraph

namespace Solver

variable {s : Solver} {l : Location} {k : Nat}

theorem location_of_known (known : s.locations.find? l = some k) : s.location l = (k, s) := by
  simp [location, Numbering.numberNew_of_find?_eq_some known]

/-- A constraint that is there already is not added. -/
theorem addConstraint_of_mem {a : Constraint} (imposed : a ∈ s.constraints k) :
    (s.addConstraint k a).2 = s :=
  addConstraint_of_old ((Numbering.contains_iff_mem _ _).mpr imposed)

end Solver

namespace Construction

variable {u : Setup} {c d e : Construction} {n m : Role} {id : Nat} {site : CallSite}
  {P Q : Nat → Prop}

/-- The second construction is valid and has grown from the first one, in its graph too. -/
structure Moves (u : Setup) (c d : Construction) : Prop where
  valid : d.Valid u
  grows : c.Grows d
  evolves : c.graph.Evolves u d.graph

theorem Moves.refl (valid : c.Valid u) : c.Moves u c := ⟨valid, .refl c, .refl⟩

theorem Moves.trans (first : c.Moves u d) (second : d.Moves u e) : c.Moves u e :=
  ⟨second.valid, first.grows.trans second.grows, first.evolves.trans second.evolves⟩

theorem moves_visit (valid : c.Valid u) (i : Nat) : c.Moves u (c.visit u i) := by
  cases here : c.roles i with
  | none =>
      have same : c.visit u i = c := by
        unfold visit
        rw [node?_eq, here]
        rfl
      rw [same]
      exact .refl valid
  | some n =>
      have enacted := enacts_visit valid here
      exact ⟨enacted.valid, enacted.grows, (evolves_visit c i).graph⟩

theorem moves_bind (valid : c.Valid u) {b : Binding} {x : Encounter}
    (means : c.solver.Means c.roles b x) : c.Moves u (c.bind u b) := by
  have enacted := enacts_bind valid means
  exact ⟨enacted.valid, enacted.grows, (evolves_bind c b).graph⟩

theorem moves_propagate (valid : c.Valid u) {k : Nat} (bound : k < c.solver.cells.size) :
    c.Moves u (c.propagate u k) := by
  obtain ⟨p, here⟩ := valid.solver.place bound
  obtain ⟨os, handed⟩ := valid.solver.objects_of_members k
  obtain ⟨sent, passed, -⟩ := Solver.enacts_propagate valid.solver c.nodesDistinct here
  have called := enacts_propagate valid rfl passed handed
  have moved := Enacts.of_solver (u := u) valid passed
  exact ⟨called.valid, moved.grows.trans called.grows, (evolves_propagate c k).graph⟩

/-- Working off an item, whichever it is, moves a construction on. -/
theorem Reached.moves_process {item : WorkItem} {rest : Worklist} (reached : Reached u c)
    (below : c.ceilingHit = false) (takes : c.solver.worklist.Takes item rest) :
    (c.popped rest).Moves u ((c.popped rest).process u item) := by
  have valid := reached.valid.popped takes
  have waits : item ∈ c.solver.worklist.items := (takes.mem_iff item).mpr (.inl rfl)
  cases item with
  | propagate k =>
      have some := (reached.settled below).flow.waits k waits
      exact moves_propagate valid (valid.solver.lt_size_of_members some)
  | visit i => exact moves_visit valid i
  | target b =>
      obtain ⟨x, means⟩ := valid.bindings b (reached.valid.queued b waits)
      exact moves_bind valid means

theorem not_hasRoom_of_isFull (full : c.isFull u = true) : ¬ c.graph.HasRoom u := by
  intro room
  unfold isFull at full
  cases ceiling : u.maxNodes with
  | none => simp [ceiling] at full
  | some limit =>
      have below := room limit ceiling
      simp only [ceiling, Option.any_some, decide_eq_true_eq] at full
      omega

/-- A call of a node runs the node for a role, of which something is said, or else there was no room
for that node. -/
def Joined (u : Setup) (c : Construction) (id : Nat) (site : CallSite) (m : Role) (P : Nat → Prop) :
    Prop :=
  (∃ k, c.roles k = some m ∧ c.graph.Runs id site k ∧ P k) ∨
    (∀ k, c.roles k ≠ some m) ∧ c.isFull u = true ∧ c.ceilingHit = true

theorem Joined.move (joined : c.Joined u id site m P) (moves : c.Moves u d)
    (more : ∀ k, P k → Q k) : d.Joined u id site m Q := by
  rcases joined with ⟨k, here, run, known⟩ | ⟨absent, full, hit⟩
  · exact .inl ⟨k, moves.grows.roles _ _ here, moves.grows.runs _ _ _ run, more k known⟩
  · -- A full graph gets no more nodes, so the one that found no room is still missing.
    have methods := moves.evolves.methods_of_full (not_hasRoom_of_isFull full)
    refine .inr ⟨fun k => ?_, ?_, moves.grows.full hit⟩
    · unfold roles
      rw [methods]
      exact absent k
    · unfold isFull CallGraph.nodeCount at full ⊢
      rw [methods]
      exact full

/-- Whatever a call is connected with, it is joined with that afterwards. -/
theorem joined_connect (valid : c.Valid u) (here : c.roles id = some n) (site : CallSite)
    (kind : u.kindOf? n site.pc = some site.kind) (m : Role) :
    (c.connect u id site m.1 m.2).2.Joined u id site m
      fun k => (c.connect u id site m.1 m.2).1 = some k := by
  obtain ⟨enacted, found⟩ := enacts_nodeFor valid m.1 m.2
  rcases node : c.nodeFor u m.1 m.2 with ⟨_ | k, d⟩
  · rw [connect_of_none node]
    cases known : c.graph.find? m.1 m.2 with
    | some k =>
        rw [nodeFor_of_known known] at node
        cases node
    | none =>
        -- without a node for the role, its absence is the fault of the ceiling
        cases full : c.isFull u with
        | false =>
            obtain ⟨t, same⟩ := nodeFor_of_new known full
            rw [same] at node
            cases node
        | true =>
            rw [nodeFor_of_full known full] at node
            cases node
            refine .inr ⟨fun k there => ?_, full, rfl⟩
            have old := (Numbering.mem_values_iff _ _).mpr ⟨k, there⟩
            exact (Numbering.find?_eq_none_iff _ _).mp known old
  · rw [connect_of_some node]
    rw [node] at enacted found
    have caller := enacted.grows.roles _ _ here
    have run := (enacted.valid.graph.runs_addEdge (Valid.lt_of_roles caller)
      (enacted.valid.agrees caller kind) k id site k).mpr (.inr ⟨rfl, rfl, rfl⟩)
    refine .inl ⟨k, ?_, run, rfl⟩
    unfold roles
    rw [CallGraph.methods_addEdge]
    exact found

/-- A call that is joined with what it is to be connected with is left as it is. -/
theorem Joined.connect_eq (joined : c.Joined u id site m P) (sorted : c.graph.Sorted) :
    (∃ k, c.connect u id site m.1 m.2 = (some k, c) ∧ P k) ∨
      c.connect u id site m.1 m.2 = (none, c) := by
  rcases joined with ⟨k, here, run, known⟩ | ⟨absent, full, hit⟩
  · have found : c.graph.find? m.1 m.2 = some k := (Numbering.find?_eq_some_iff _ _ _).mpr here
    refine .inl ⟨k, ?_, known⟩
    rw [connect_of_some (nodeFor_of_known found), sorted.addEdge_of_runs run]
  · have new : c.graph.find? m.1 m.2 = none := by
      refine (Numbering.find?_eq_none_iff _ _).mpr fun member => ?_
      obtain ⟨k, there⟩ := (Numbering.mem_values_iff _ _).mp member
      exact absent k there
    refine .inr ?_
    rw [connect_of_none (nodeFor_of_full new full), ← hit]

variable {call : PendingCall} {code : Invocation} {target : DispatchTarget}

/-- A call has done what an object means. -/
def Serves (u : Setup) (c : Construction) (call : PendingCall) (code : Invocation) :
    DispatchTarget → Prop
  | .function f i => ∃ n, c.roles call.caller = some n ∧
      c.Joined u call.caller ⟨call.pc, code.kind⟩ (u.calleeOf n call.pc code.kind call.dispatch f)
        fun k => c.bindings.contains ⟨call.caller, call.pc, k, i, call.dispatch⟩ = true
  | .builtin b =>
    c.Joined u call.caller ⟨call.pc, code.kind⟩ (.builtin b, .everywhere) fun _ => True
  | .reflective d => ∀ v, code.receiver = some v →
      ∃ k, c.solver.locations.find? (.var call.caller v) = some k ∧
        .invoke { call with dispatch := d } ∈ c.solver.constraints k

theorem dispatchTarget_function (here : c.roles call.caller = some n) (f : FunctionId) (i : Nat) :
    dispatchTarget u call code c (.function f i) = noteBinding call i
      (c.connect u call.caller ⟨call.pc, code.kind⟩
        (u.calleeOf n call.pc code.kind call.dispatch f).1
        (u.calleeOf n call.pc code.kind call.dispatch f).2) := by
  have node : c.graph.node? call.caller = some ⟨call.caller, n.1, n.2⟩ := by
    rw [node?_eq, here]
    rfl
  exact dispatchFunction_eq node

/-- What a call has done stays done. -/
theorem Serves.move (serves : c.Serves u call code target) (moves : c.Moves u d) :
    d.Serves u call code target := by
  cases target with
  | function f i =>
      obtain ⟨n, here, joined⟩ := serves
      exact ⟨n, moves.grows.roles _ _ here, joined.move moves fun k => moves.grows.bindings _⟩
  | builtin b => exact Joined.move serves moves fun _ => id
  | reflective way =>
      intro v receiver
      obtain ⟨k, known, imposed⟩ := serves v receiver
      have here := (Numbering.find?_eq_some_iff _ _ _).mp known
      exact ⟨k, (Numbering.find?_eq_some_iff _ _ _).mpr (moves.grows.solver.locations _ _ here),
        moves.grows.solver.constraints _ _ imposed⟩

/-- What a call has done it does not do again. -/
theorem Serves.dispatchTarget_eq (serves : c.Serves u call code target) (sorted : c.graph.Sorted) :
    dispatchTarget u call code c target = c := by
  cases target with
  | function f i =>
      obtain ⟨n, here, joined⟩ := serves
      rw [dispatchTarget_function here]
      rcases joined.connect_eq sorted with ⟨k, connected, made⟩ | connected
      · rw [connected]
        exact if_pos made
      · rw [connected]
        rfl
  | builtin b =>
      rw [dispatchTarget]
      rcases Joined.connect_eq serves sorted with ⟨k, connected, -⟩ | connected
      · rw [connected]
      · rw [connected]
  | reflective way =>
      rw [dispatchTarget]
      cases receiver : code.receiver with
      | none => exact dispatchReceiver_of_none receiver way
      | some v =>
          obtain ⟨k, known, imposed⟩ := serves v receiver
          have var : c.solver.var call.caller v = (k, c.solver) := Solver.location_of_known known
          rw [dispatchReceiver_of_some receiver, var, Solver.addConstraint_of_mem imposed]

theorem contains_addBinding (c : Construction) (b : Binding) :
    (c.addBinding b).bindings.contains b = true := by
  unfold addBinding
  split
  · assumption
  · simp [push, KeySet.contains_insert]

theorem graph_addBinding (c : Construction) (b : Binding) :
    (c.addBinding b).graph = c.graph ∧ (c.addBinding b).ceilingHit = c.ceilingHit := by
  unfold addBinding
  split <;> exact ⟨rfl, rfl⟩

theorem graph_noteBinding (call : PendingCall) (i : Nat) (x : Option Nat × Construction) :
    (noteBinding call i x).graph = x.2.graph ∧
      (noteBinding call i x).ceilingHit = x.2.ceilingHit := by
  obtain ⟨id, c⟩ := x
  cases id with
  | none => exact ⟨rfl, rfl⟩
  | some k => exact graph_addBinding c _

theorem Joined.noteBinding {x : Option Nat × Construction} {i : Nat}
    (joined : x.2.Joined u id site m fun k => x.1 = some k) :
    (noteBinding call i x).Joined u id site m fun k =>
      (Construction.noteBinding call i x).bindings.contains
        ⟨call.caller, call.pc, k, i, call.dispatch⟩ = true := by
  obtain ⟨graph, hit⟩ := graph_noteBinding call i x
  unfold Joined roles isFull at joined ⊢
  rw [graph, hit]
  refine joined.imp_left fun ⟨k, here, run, known⟩ => ⟨k, here, run, ?_⟩
  obtain ⟨id, c⟩ := x
  cases known
  exact contains_addBinding ..

/-- Whatever an object means, the call has done it afterwards. -/
theorem serves_dispatchTarget (valid : c.Valid u) (here : c.roles call.caller = some n)
    (found : u.callOf? n call.pc = some code) (target : DispatchTarget) :
    (dispatchTarget u call code c target).Serves u call code target := by
  have kind : u.kindOf? n call.pc = some code.kind := kindOf?_of_callOf? found
  cases target with
  | function f i =>
      let m := u.calleeOf n call.pc code.kind call.dispatch f
      have joined := joined_connect valid here ⟨call.pc, code.kind⟩ kind m
      have connected := (enacts_connect valid here ⟨call.pc, code.kind⟩ kind m.1 m.2).1
      rw [dispatchTarget_function here]
      refine ⟨n, ?_, joined.noteBinding⟩
      unfold roles
      rw [(graph_noteBinding ..).1]
      exact connected.grows.roles _ _ here
  | builtin b =>
      have joined := joined_connect valid here ⟨call.pc, code.kind⟩ kind (.builtin b, .everywhere)
      rw [dispatchTarget]
      refine joined.imp_left ?_
      rintro ⟨k, there, run, -⟩
      exact ⟨k, there, run, trivial⟩
  | reflective way =>
      intro v receiver
      have bound := (Solver.enacts_var valid.solver here v).valid.lt_size (Solver.place?_var here v)
      rw [dispatchTarget, dispatchReceiver_of_some receiver]
      refine ⟨(c.solver.var call.caller v).1, ?_, ?_⟩
      · rw [(Solver.keeps_addConstraint ..).locations]
        exact (Numbering.find?_eq_some_iff _ _ _).mpr (Solver.value?_location ..)
      · exact (Solver.mem_constraints_addConstraint _ bound _ _).mpr (.inr ⟨rfl, rfl⟩)

end Construction

end CallFlow
