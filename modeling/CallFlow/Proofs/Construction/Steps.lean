import CallFlow.Proofs.Construction.Connecting
import CallFlow.Proofs.Construction.Effect

/-! Creating nodes, connecting and dispatching calls, visiting nodes and binding calls each enact
just the findings that the rules name for them. -/

namespace CallFlow.Construction

variable {u : Setup} {c d : Construction} {js : List (Finding Role)}

theorem node?_eq (c : Construction) (id : Nat) :
    c.graph.node? id = (c.roles id).map fun n => ⟨id, n.1, n.2⟩ := rfl

theorem body?_eq {id : Nat} {n : Role} (here : c.roles id = some n) :
    c.body? u id = u.bodyOf? n := by
  unfold body?
  rw [node?_eq, here]
  rfl

theorem call?_eq {id : Nat} {n : Role} (here : c.roles id = some n) (pc : Nat) :
    c.call? u id pc = u.callOf? n pc := by
  unfold call?
  rw [body?_eq here]
  rfl

theorem Valid.lt_of_roles {id : Nat} {n : Role} (here : c.roles id = some n) :
    id < c.graph.nodeCount := Numbering.lt_size_of_value? here

theorem Valid.agrees (valid : c.Valid u) {id : Nat} {n : Role} (here : c.roles id = some n)
    {site : CallSite} (kind : u.kindOf? n site.pc = some site.kind) :
    c.graph.Agrees id site := by
  intro s found
  have place := CallGraph.pc_of_site? found
  have kinds := valid.kinds id n s.site here ⟨s, place ▸ found, rfl⟩
  rw [place, kind] at kinds
  obtain ⟨⟨pc, k⟩, targets⟩ := s
  cases place
  cases kinds
  rfl

theorem enacts_addSite (valid : c.Valid u) {id : Nat} {n : Role} (here : c.roles id = some n)
    (site : CallSite) (kind : u.kindOf? n site.pc = some site.kind) :
    Enacts u c { c with graph := c.graph.addSite id site } [.site n site] := by
  have bound := Valid.lt_of_roles here
  have sites := valid.graph.hasSite_addSite bound (valid.agrees here kind)
  have runs := valid.graph.runs_addSite bound site
  refine ⟨⟨valid.solver, valid.graph.addSite bound site, valid.root, ?_, valid.bindings,
      valid.queued⟩,
    ⟨.refl _, .refl _, fun i site' found => (sites i site').mpr (.inl found),
      fun i site' k run => (runs i site' k).mpr run, fun _ found => found,
      fun _ _ here _ => .inl here, fun _ found => .inl found, fun hit => hit⟩,
    accounts_of_graph rfl, ?_, ?_⟩
  · intro i m site' there found
    rcases (sites i site').mp found with old | ⟨rfl, rfl⟩
    · exact valid.kinds i m site' there old
    · have same : m = n := Option.some.inj (there.symm.trans here)
      exact same ▸ kind
  · intro _ j member
    obtain rfl := List.mem_singleton.mp member
    exact .site here ((sites id site).mpr (.inr ⟨rfl, rfl⟩))
  · intro D passing before all j known
    cases known with
    | solver known => exact before _ (.solver known)
    | node there => exact before _ (.node there)
    | site there found =>
        rcases (sites _ _).mp found with old | ⟨rfl, rfl⟩
        · exact before _ (.site there old)
        · have same := Option.some.inj (there.symm.trans here)
          exact same ▸ all _ (List.mem_singleton_self _)
    | edge there run target => exact before _ (.edge there ((runs _ _ _).mp run) target)
    | binding found means => exact before _ (.binding found means)

def withNode (c : Construction) (n : Role) : Construction :=
  { c with graph := (c.graph.addNode n.1 n.2).2 }

theorem roles_withNode (c : Construction) (n : Role) (i : Nat) (m : Role) :
    (c.withNode n).roles i = some m ↔
      c.roles i = some m ∨ i = (c.graph.addNode n.1 n.2).1.1 ∧ m = n := by
  obtain ⟨method, ctx⟩ := n
  unfold withNode roles
  rw [CallGraph.id_addNode, CallGraph.methods_addNode]
  exact Numbering.value?_number_eq_some_iff c.graph.methods (method, ctx) m i

theorem hasSite_withNode (c : Construction) (n : Role) (i : Nat) (site : CallSite) :
    (c.withNode n).graph.HasSite i site ↔ c.graph.HasSite i site := by
  unfold CallGraph.HasSite withNode
  rw [CallGraph.site?_addNode]

theorem runs_withNode (c : Construction) (n : Role) (i : Nat) (site : CallSite) (k : Nat) :
    (c.withNode n).graph.Runs i site k ↔ c.graph.Runs i site k := by
  unfold CallGraph.Runs withNode
  rw [CallGraph.site?_addNode]

/-- A number of a node that is old means what it meant. -/
theorem roles_of_lt (grown : c.graph.methods.Extends d.graph.methods) {i : Nat} {m : Role}
    (bound : i < c.graph.nodeCount) (here : d.roles i = some m) : c.roles i = some m := by
  obtain ⟨n, before⟩ := (c.graph.methods.value?_isSome_iff i).mpr bound
  have after := grown i n before
  exact Option.some.inj (after.symm.trans here) ▸ before

/-- Nothing happens, and what is asked for is known already. -/
theorem Enacts.of_known (valid : c.Valid u) (known : ∀ j ∈ js, c.Knows j) : Enacts u c c js where
  valid := valid
  grows := .refl c
  accounts := .refl u c
  known _ := known
  sound _ _ before _ := before

theorem enacts_refuse (valid : c.Valid u) (full : c.isFull u = true) :
    Enacts u c { c with ceilingHit := true } js := by
  have refused : Enacts u c { c with ceilingHit := true } [] :=
    .of_notes valid (fun _ => rfl) (accounts_refuse full)
  exact refused.of_full rfl (by simp)

/-- A node is added, and waits to be visited if it runs a function. -/
theorem enacts_withNode (valid : c.Valid u) (n : Role) {t : Solver} (grows : c.solver.Grows t)
    (validSolver : t.Valid c.roles)
    (knows : ∀ nodes (j : Finding Role), t.Knows nodes j → c.solver.Knows nodes j)
    (targets : ∀ b, .target b ∈ t.worklist.items → .target b ∈ c.solver.worklist.items)
    (visit : n.1.function?.isSome → .visit (c.graph.addNode n.1 n.2).1.1 ∈ t.worklist.items)
    (accounts : c.Accounts u { c.withNode n with solver := t }) :
    Enacts u c { c.withNode n with solver := t } [.node n] := by
  have extended : c.graph.methods.Extends (c.withNode n).graph.methods :=
    Numbering.extends_number _ _
  have sites := hasSite_withNode c n
  have runs := runs_withNode c n
  have grown : c.Grows { c.withNode n with solver := t } :=
    { solver := grows
      roles := extended
      sites := fun i site found => (sites i site).mpr found
      runs := fun i site k run => (runs i site k).mpr run
      bindings := fun _ found => found
      visits := fun i m here function => by
        rcases (roles_withNode c n i m).mp here with old | ⟨rfl, rfl⟩
        · exact .inl old
        · exact .inr (visit function)
      targets := fun _ found => .inl found
      full := fun hit => hit }
  -- the new node has no calls yet, so that a node with a call is an old one
  have oldCaller : ∀ i site m, c.graph.HasSite i site → (c.withNode n).roles i = some m →
      c.roles i = some m := by
    rintro i site m ⟨s, found, -⟩ here
    exact roles_of_lt extended (valid.graph.bound_of_site? found) here
  refine ⟨⟨validSolver.widen extended, valid.graph.addNode n.1 n.2, extended _ _ valid.root, ?_, ?_,
    fun b waits => valid.queued b (targets b waits)⟩, grown, accounts, ?_, ?_⟩
  · intro i m site here found
    have old := (sites i site).mp found
    exact valid.kinds i m site (oldCaller i site m old here) old
  · intro b found
    obtain ⟨x, means⟩ := valid.bindings b found
    exact ⟨x, grown.means means⟩
  · intro _ j member
    obtain rfl := List.mem_singleton.mp member
    exact .node ((roles_withNode c n _ n).mpr (.inr ⟨rfl, rfl⟩))
  · intro D passing before all j known
    cases known with
    | solver known =>
        exact before _ (.solver ((valid.solver.knows_widen extended _).mp (knows _ _ known)))
    | node here =>
        rcases (roles_withNode c n _ _).mp here with old | ⟨-, rfl⟩
        · exact before _ (.node old)
        · exact all _ (List.mem_singleton_self _)
    | site here found =>
        have old := (sites _ _).mp found
        exact before _ (.site (oldCaller _ _ _ old here) old)
    | edge here run there =>
        obtain ⟨s, found, named, member⟩ := (runs _ _ _).mp run
        have target := valid.graph.targets _ _ s _ found member
        exact before _ (.edge (oldCaller _ _ _ ⟨s, found, named⟩ here) ⟨s, found, named, member⟩
          (roles_of_lt extended target there))
    | binding found means =>
        exact before _ (.binding found (valid.means_of_grows grown found means))

/-- There is a node for a role afterwards, unless it was refused. -/
theorem enacts_nodeFor (valid : c.Valid u) (m : Method) (ctx : Context) :
    Enacts u c (c.nodeFor u m ctx).2 [.node (m, ctx)] ∧
      match (c.nodeFor u m ctx).1 with
      | some id => (c.nodeFor u m ctx).2.roles id = some (m, ctx)
      | none => (c.nodeFor u m ctx).2.ceilingHit = true := by
  unfold nodeFor
  split
  · rename_i id found
    have here : c.roles id = some (m, ctx) := (c.graph.methods.find?_eq_some_iff _ _).mp found
    refine ⟨.of_known valid fun j member => ?_, here⟩
    obtain rfl := List.mem_singleton.mp member
    exact .node here
  · rename_i new
    split
    · rename_i full
      exact ⟨enacts_refuse valid full, rfl⟩
    · have here := (roles_withNode c (m, ctx) _ (m, ctx)).mpr (.inr ⟨rfl, rfl⟩)
      have accounts := accounts_addNode (u := u) new
      dsimp only at accounts ⊢
      split
      · rename_i function
        rw [if_pos function] at accounts
        refine ⟨?_, here⟩
        exact enacts_withNode valid (m, ctx) (Solver.grows_push c.solver rfl)
          (valid.solver.worklist (valid.solver.coherent.push _))
          (fun _ _ => Solver.knows_worklist.mp)
          (fun b waits => (Worklist.mem_items_of_push waits).resolve_right nofun)
          (fun _ => valid.solver.coherent.mem_items_push _) accounts
      · rename_i none
        rw [if_neg none] at accounts
        refine ⟨?_, here⟩
        exact enacts_withNode valid (m, ctx) (.refl _) valid.solver (fun _ _ known => known)
          (fun _ waits => waits) (fun function => absurd function none) accounts

theorem enacts_addEdge (valid : c.Valid u) {id k : Nat} {n m : Role} (here : c.roles id = some n)
    (there : c.roles k = some m) {site : CallSite} (kind : u.kindOf? n site.pc = some site.kind) :
    Enacts u c { c with graph := (c.graph.addEdge id site k).2 }
      [.site n site, .edge n site m] := by
  have bound := Valid.lt_of_roles here
  have agrees := valid.agrees here kind
  have sites := valid.graph.hasSite_addEdge bound agrees k
  have runs := valid.graph.runs_addEdge bound agrees k
  have methods : (c.graph.addEdge id site k).2.methods = c.graph.methods :=
    CallGraph.methods_addEdge c.graph id site k
  have roles : Construction.roles { c with graph := (c.graph.addEdge id site k).2 } = c.roles :=
    congrArg Numbering.value? methods
  have extended : c.graph.methods.Extends (c.graph.addEdge id site k).2.methods := by
    rw [methods]
    exact .refl _
  have grown : c.Grows { c with graph := (c.graph.addEdge id site k).2 } :=
    ⟨.refl _, extended, fun i site' found => (sites i site').mpr (.inl found),
      fun i site' j run => (runs i site' j).mpr (.inl run), fun _ found => found,
      fun _ _ here _ => .inl (roles ▸ here), fun _ found => .inl found, fun hit => hit⟩
  refine ⟨⟨valid.solver.widen extended, valid.graph.addEdge site (Valid.lt_of_roles there),
    extended _ _ valid.root, ?_, ?_, valid.queued⟩, grown, accounts_of_graph methods, ?_, ?_⟩
  · intro i m site' present found
    rw [roles] at present
    rcases (sites i site').mp found with old | ⟨rfl, rfl⟩
    · exact valid.kinds i m site' present old
    · exact Option.some.inj (here.symm.trans present) ▸ kind
  · intro b found
    obtain ⟨x, means⟩ := valid.bindings b found
    exact ⟨x, grown.means means⟩
  · intro _ j member
    rcases List.mem_cons.mp member with rfl | member
    · exact .site (roles ▸ here) ((sites id site).mpr (.inr ⟨rfl, rfl⟩))
    · obtain rfl := List.mem_singleton.mp member
      exact .edge (roles ▸ here) ((runs id site k).mpr (.inr ⟨rfl, rfl, rfl⟩)) (roles ▸ there)
  · intro D passing before all j known
    cases known with
    | solver known =>
        exact before _ (.solver ((valid.solver.knows_widen extended _).mp known))
    | node present => exact before _ (.node (roles ▸ present))
    | site present found =>
        rw [roles] at present
        rcases (sites _ _).mp found with old | ⟨rfl, rfl⟩
        · exact before _ (.site present old)
        · rw [here] at present
          cases present
          exact all _ List.mem_cons_self
    | edge present run target =>
        rw [roles] at present target
        rcases (runs _ _ _).mp run with old | ⟨rfl, rfl, rfl⟩
        · exact before _ (.edge present old target)
        · rw [here] at present
          rw [there] at target
          cases present
          cases target
          exact all _ (List.mem_cons_of_mem _ List.mem_cons_self)
    | binding found means =>
        exact before _ (.binding found (valid.means_of_grows grown found means))

theorem enacts_connect (valid : c.Valid u) {id : Nat} {n : Role} (here : c.roles id = some n)
    (site : CallSite) (kind : u.kindOf? n site.pc = some site.kind) (m : Method) (ctx : Context) :
    Enacts u c (c.connect u id site m ctx).2 (Finding.run n site (m, ctx)) ∧
      match (c.connect u id site m ctx).1 with
      | some k => (c.connect u id site m ctx).2.roles k = some (m, ctx)
      | none => (c.connect u id site m ctx).2.ceilingHit = true := by
  obtain ⟨node, found⟩ := enacts_nodeFor valid m ctx
  rcases known : c.nodeFor u m ctx with ⟨_ | k, d⟩
  · rw [connect_of_none known]
    rw [known] at node found
    refine ⟨node.of_full found fun j member => ?_, found⟩
    obtain rfl := List.mem_singleton.mp member
    exact List.mem_cons_self
  · rw [connect_of_some known]
    rw [known] at node found
    have edge := enacts_addEdge node.valid (node.grows.roles _ _ here) found kind
    refine ⟨node.trans edge, ?_⟩
    exact edge.grows.roles _ _ found

theorem enacts_addBinding (valid : c.Valid u) {b : Binding} {x : Encounter}
    (means : c.solver.Means c.roles b x) :
    Enacts u c (c.addBinding b) [.binding x.caller x.pc x.callee x.function x.dispatch] := by
  unfold addBinding
  split
  · rename_i found
    refine .of_known valid fun j member => ?_
    obtain rfl := List.mem_singleton.mp member
    exact .binding found means
  · rename_i new
    have grown : c.Grows (push { c with bindings := c.bindings.insert b } (.target b)) :=
      { solver := Solver.grows_push c.solver rfl
        roles := .refl _
        sites := fun _ _ found => found
        runs := fun _ _ _ run => run
        bindings := fun b' found => by
          simp only [push, KeySet.contains_insert, found, Bool.true_or]
        visits := fun _ _ here _ => .inl here
        targets := fun b' found => by
          simp only [push, KeySet.contains_insert, Bool.or_eq_true, decide_eq_true_eq] at found
          refine found.imp_right fun same => ?_
          exact same ▸ valid.solver.coherent.mem_items_push (.target b)
        full := fun hit => hit }
    have accounts : c.Accounts u (push { c with bindings := c.bindings.insert b } (.target b)) := by
      have added := accounts_addBinding (u := u) c b
      rwa [addBinding, if_neg new] at added
    refine ⟨⟨valid.solver.worklist (valid.solver.coherent.push _), valid.graph, valid.root,
      valid.kinds, ?_, ?_⟩, grown, accounts, ?_, ?_⟩
    · intro b' found
      simp only [push, KeySet.contains_insert, Bool.or_eq_true, decide_eq_true_eq] at found
      rcases found with old | rfl
      · obtain ⟨y, before⟩ := valid.bindings b' old
        exact ⟨y, grown.means before⟩
      · exact ⟨x, grown.means means⟩
    · intro b' waits
      simp only [push, KeySet.contains_insert, Bool.or_eq_true, decide_eq_true_eq]
      rcases Worklist.mem_items_of_push waits with old | same
      · exact .inl (valid.queued b' old)
      · cases same
        exact .inr rfl
    · intro _ j member
      obtain rfl := List.mem_singleton.mp member
      refine .binding (b := b) ?_ (grown.means means)
      simp only [push, KeySet.contains_insert, decide_true, Bool.or_true]
    · intro D passing before all j known
      cases known with
      | solver known => exact before _ (.solver (Solver.knows_worklist.mp known))
      | node here => exact before _ (.node here)
      | site here found => exact before _ (.site here found)
      | edge here run there => exact before _ (.edge here run there)
      | binding found stands =>
          simp only [push, KeySet.contains_insert, Bool.or_eq_true, decide_eq_true_eq] at found
          rcases found with old | rfl
          · exact before _ (.binding old (valid.means_of_grows grown old stands))
          · -- the numbers of a binding stand for one encounter
            obtain rfl := (grown.means means).unique stands
            exact all _ (List.mem_singleton_self _)

theorem kindOf?_of_callOf? {n : Role} {pc : Nat} {code : Invocation}
    (found : u.callOf? n pc = some code) : u.kindOf? n pc = some code.kind := by
  obtain ⟨m, ctx⟩ := n
  cases m with
  | fakeRoot => cases found
  | function f => simp only [Setup.kindOf?, found, Option.map_some]
  | builtin b => cases found
  | unknown => cases found

variable {call : PendingCall} {code : Invocation} {n : Role}

theorem enacts_dispatchFunction (valid : c.Valid u) (here : c.roles call.caller = some n)
    (kind : u.kindOf? n call.pc = some code.kind) (f : FunctionId) {i : Nat} {o : AbstractObject}
    (handed : c.solver.objects.value? i = some o) {m : Role}
    (callee : m = (.function f, u.algorithm.contextOf n.1 ⟨call.pc, code.kind⟩ call.dispatch)) :
    Enacts u c (c.dispatchFunction u call code f i)
      (Finding.run n ⟨call.pc, code.kind⟩ m ++
        [.binding n call.pc m o call.dispatch]) := by
  subst callee
  obtain ⟨connected, found⟩ := enacts_connect valid here ⟨call.pc, code.kind⟩ kind
    (.function f) (u.algorithm.contextOf n.1 ⟨call.pc, code.kind⟩ call.dispatch)
  have node : c.graph.node? call.caller = some ⟨call.caller, n.1, n.2⟩ := by
    rw [node?_eq, here]
    rfl
  rw [dispatchFunction_eq node]
  generalize c.connect u call.caller ⟨call.pc, code.kind⟩ (.function f) _ = callee
    at connected found
  obtain ⟨_ | id, d⟩ := callee
  · exact connected.of_full found fun j => List.mem_append_left _
  · refine connected.trans (enacts_addBinding (x := ⟨n, call.pc, _, o, call.dispatch⟩)
      connected.valid ⟨connected.grows.roles _ _ here, found, ?_, rfl, rfl⟩)
    exact connected.grows.solver.objects _ _ handed

theorem enacts_dispatchReceiver (valid : c.Valid u) (here : c.roles call.caller = some n)
    (d : Dispatch) :
    Enacts u c (c.dispatchReceiver call code d)
      (code.receiver.elim [] fun v =>
        [.place (.var n v), .attached (.var n v) (.invoke n call.pc d)]) := by
  unfold dispatchReceiver
  cases code.receiver with
  | none => exact .refl valid
  | some v =>
      have var := Solver.enacts_var valid.solver here v
      have attached := Solver.enacts_addConstraint var.valid (Solver.place?_var here v)
        (Tables.demand?_invoke call.pc d here)
      exact .of_solver valid (var.trans attached)

/-- Doing what an object means for a call enacts what the rules name for it. -/
theorem enacts_dispatchTarget (valid : c.Valid u) (here : c.roles call.caller = some n)
    (found : u.callOf? n call.pc = some code) {i : Nat} {o : AbstractObject} {k : CalleeKind}
    (handed : c.solver.objects.value? i = some o)
    (means : o.classify u.callsReceiver call.dispatch = some k) :
    Enacts u c (c.dispatchTarget u call code (k.target i))
      (u.dispatchFindings n call.pc call.dispatch o) := by
  have kind := kindOf?_of_callOf? found
  unfold Setup.dispatchFindings
  simp only [found, means]
  cases k with
  | function f =>
      rw [CalleeKind.target, dispatchTarget]
      refine (enacts_dispatchFunction valid here kind f handed rfl).congr fun j => ?_
      rw [List.mem_cons, List.mem_append, List.mem_singleton]
      exact or_comm
  | builtin b =>
      rw [CalleeKind.target, dispatchTarget]
      exact (enacts_connect valid here ⟨call.pc, code.kind⟩ kind (.builtin b) .everywhere).1
  | reflective d => exact enacts_dispatchReceiver valid here d

/-- The same for all objects of a list, of which was looked up beforehand what they mean. -/
theorem enacts_dispatchTargets (valid : c.Valid u) (here : c.roles call.caller = some n)
    (found : u.callOf? n call.pc = some code) {table : Numbering AbstractObject}
    (known : table.Extends c.solver.objects) {is : List Nat} {os : List AbstractObject}
    (handed : is.map table.value? = os.map some) :
    Enacts u c
      ((is.filterMap fun i => ((table.value? i).bind
          (·.classify u.callsReceiver call.dispatch)).map (·.target i)).foldl
        (dispatchTarget u call code) c)
      (os.flatMap (u.dispatchFindings n call.pc call.dispatch)) := by
  induction is generalizing c os with
  | nil =>
      obtain rfl : os = [] := by simpa using handed.symm
      exact .refl valid
  | cons i is ih =>
      cases os with
      | nil => cases handed
      | cons o os =>
          obtain ⟨first, later⟩ := List.cons.inj handed
          rw [List.filterMap_cons, List.flatMap_cons, first, Option.bind_some]
          cases means : o.classify u.callsReceiver call.dispatch with
          | none =>
              have nothing : u.dispatchFindings n call.pc call.dispatch o = [] := by
                simp only [Setup.dispatchFindings, found, means]
              rw [nothing]
              exact ih valid here known later
          | some k =>
              have target := enacts_dispatchTarget valid here found (known i o first) means
              exact target.trans (ih target.valid (target.grows.roles _ _ here)
                (known.trans target.grows.solver.objects) later)

theorem enacts_dispatch (valid : c.Valid u) (here : c.roles call.caller = some n) {facts : IdSet}
    {os : List AbstractObject}
    (handed : facts.toList.map c.solver.objects.value? = os.map some) :
    Enacts u c (c.dispatch u (call, facts))
      (os.flatMap (u.dispatchFindings n call.pc call.dispatch)) := by
  unfold dispatch
  rw [call?_eq here]
  cases found : u.callOf? n call.pc with
  | none =>
      have nothing : ∀ o, u.dispatchFindings n call.pc call.dispatch o = [] := fun o => by
        simp only [Setup.dispatchFindings, found]
      exact (Enacts.refl valid).congr fun j => by simp [nothing]
  | some code => exact enacts_dispatchTargets valid here found (.refl _) handed

/-- What the calls of a list ask for whose callee held some objects. -/
def callFindings (u : Setup) (c : Construction) (os : List AbstractObject)
    (x : PendingCall × IdSet) : List (Finding Role) :=
  (c.roles x.1.caller).elim [] fun n => os.flatMap (u.dispatchFindings n x.1.pc x.1.dispatch)

/-- One turn of a place passes on its objects and dispatches the calls whose callee it is. -/
theorem enacts_propagate (valid : c.Valid u) {k : Nat} {t : Solver}
    {calls : List (PendingCall × IdSet)} {sent : List (Finding Role)}
    (turn : c.solver.propagate k = (calls, t)) (passed : Solver.Enacts c.roles c.solver t sent)
    {os : List AbstractObject}
    (handed : (c.solver.members k).map c.solver.objects.value? = os.map some) :
    Enacts u { c with solver := t } (c.propagate u k) (calls.flatMap (callFindings u c os)) := by
  have moved := Enacts.of_solver (u := u) valid passed
  unfold propagate
  rw [turn]
  refine Enacts.foldl
    (P := fun d => c.graph.methods.Extends d.graph.methods ∧
      (c.solver.members k).map d.solver.objects.value? = os.map some)
    (fun d e grown kept => ⟨kept.1.trans grown.roles,
      map_eq_map_some_of_kept (fun i o => grown.solver.objects i o) kept.2⟩)
    calls ?_ moved.valid
    ⟨.refl _, map_eq_map_some_of_kept (fun i o => passed.grows.objects i o) handed⟩
  rintro d valid' ⟨extended, objects⟩ ⟨call, facts⟩ member
  have asked : (call, facts) ∈ (c.solver.propagate k).1 := by
    rw [turn]
    exact member
  obtain ⟨rfl, imposed⟩ := Solver.mem_calls_of_propagate asked
  obtain ⟨-, a, meant⟩ := valid.solver.constraints k _ imposed
  obtain ⟨n, here, -⟩ := Option.map_eq_some_iff.mp meant
  have caller : c.roles call.caller = some n := here
  simp only [callFindings, caller, Option.elim_some]
  exact enacts_dispatch valid' (extended _ _ caller) objects

theorem bodyOf?_of_callOf? {pc : Nat} {f : FunctionBody} (body : u.bodyOf? n = some f) :
    u.callOf? n pc = f.callAt? pc := by
  simp only [Setup.callOf?, body, Option.bind_some]

theorem enacts_addInstruction (valid : c.Valid u) {id : Nat} (here : c.roles id = some n)
    {f : FunctionBody} (body : u.bodyOf? n = some f) {i : Instruction} {pc : Nat}
    (stands : f.instructions[pc]? = some i) :
    Enacts u c (c.addInstruction u ⟨id, n.1, n.2⟩ f (i, pc)) (i.findings u.heap n f.id pc) := by
  unfold addInstruction
  cases i with
  | invoke call =>
      have found : u.callOf? n pc = some call := by
        rw [bodyOf?_of_callOf? body]
        simp only [FunctionBody.callAt?, FunctionBody.instruction?, stands, Option.bind_some,
          Instruction.call?]
      have site := enacts_addSite valid here ⟨pc, call.kind⟩ (kindOf?_of_callOf? found)
      have added := Solver.enacts_addInstruction (n := n) site.valid.solver u.heap
        ⟨id, n.2, f.id, pc⟩ here rfl (.invoke call)
      exact site.trans (.of_solver site.valid added)
  | ret value =>
      cases value with
      | none => exact .of_solver valid (Solver.enacts_addInstruction (n := n) valid.solver u.heap
          ⟨id, n.2, f.id, pc⟩ here rfl (.ret none))
      | some v => exact .of_solver valid (Solver.enacts_addInstruction (n := n) valid.solver u.heap
          ⟨id, n.2, f.id, pc⟩ here rfl (.ret (some v)))
  | _ => exact .of_solver valid (Solver.enacts_addInstruction (n := n) valid.solver u.heap
      ⟨id, n.2, f.id, pc⟩ here rfl _)

theorem enacts_visit (valid : c.Valid u) {id : Nat} (here : c.roles id = some n) :
    Enacts u c (c.visit u id) (u.visitFindings n) := by
  unfold visit Setup.visitFindings
  rw [node?_eq, here, body?_eq here]
  cases body : u.bodyOf? n with
  | none => exact .refl valid
  | some f =>
      have counted := Enacts.of_counts valid (c.visited + 1)
        (f.instructions.length :: c.worked)
      have added := Enacts.foldl (u := u) (f := addInstruction u ⟨id, n.1, n.2⟩ f)
        (g := fun x => x.1.findings u.heap n f.id x.2) (P := fun c => c.roles id = some n)
        (fun _ _ grown here => grown.roles _ _ here) f.instructions.zipIdx
        (fun c valid here x member => by
          have stands := List.mem_zipIdx_iff_getElem?.mp member
          exact enacts_addInstruction valid here body stands)
        counted.valid here
      exact counted.trans added

theorem enacts_bind (valid : c.Valid u) {b : Binding} {x : Encounter}
    (means : c.solver.Means c.roles b x) : Enacts u c (c.bind u b) (u.bindFindings x) := by
  unfold bind Setup.bindFindings
  rw [node?_eq, means.caller, body?_eq means.caller, call?_eq means.caller, body?_eq means.callee,
    means.pc]
  cases u.bodyOf? x.caller with
  | none => exact .refl valid
  | some f =>
      cases u.callOf? x.caller x.pc with
      | none => exact .refl valid
      | some call =>
          cases u.bodyOf? x.callee with
          | none => exact .refl valid
          | some callee =>
              have bound := Solver.enacts_bind valid.solver means u.heap
                ⟨b.caller, x.caller.2, f.id, b.pc⟩ rfl rfl rfl call callee
              rw [means.pc] at bound
              exact .of_solver valid bound

theorem enacts_addEntry (valid : c.Valid u) (e : FunctionId × Nat) :
    Enacts u c (c.addEntry u e) (Finding.entry e) := by
  have site := enacts_addSite valid valid.root ⟨e.2, .call⟩ rfl
  have run := (enacts_connect site.valid site.valid.root ⟨e.2, .call⟩ rfl (.function e.1)
    .everywhere).1
  rw [addEntry]
  refine (site.trans run).congr fun j => ⟨List.mem_append_right _, fun member => ?_⟩
  rcases List.mem_append.mp member with member | member
  · obtain rfl := List.mem_singleton.mp member
    exact List.mem_cons_of_mem _ List.mem_cons_self
  · exact member

end CallFlow.Construction
