import CallFlow.Proofs.Lookups

/-! What a run takes off the worklist. What was taken and what waits name together just the nodes
that run functions and the bindings, each once, although nobody looks for them in the queue. -/

namespace CallFlow

namespace WorkItem

def node? : WorkItem → Option Nat
  | visit id => some id
  | propagate _ | target _ => none

def binding? : WorkItem → Option Binding
  | target b => some b
  | propagate _ | visit _ => none

theorem count_filterMap_node? (items : List WorkItem) (id : Nat) :
    (items.filterMap node?).count id = items.count (.visit id) := by
  rw [List.count_filterMap, List.count]
  congr 1
  funext item
  cases item <;> simp [node?]

theorem count_filterMap_binding? (items : List WorkItem) (b : Binding) :
    (items.filterMap binding?).count b = items.count (.target b) := by
  rw [List.count_filterMap, List.count]
  congr 1
  funext item
  cases item <;> simp [binding?]

end WorkItem

namespace Worklist

variable {v w x : Worklist} {item : WorkItem} {added more : List WorkItem}

/-- The second worklist is the first one with some items put on its end. -/
structure Puts (w : Worklist) (added : List WorkItem) (v : Worklist) : Prop where
  items : v.items = w.items ++ added
  pushed : v.pushed = w.pushed + added.length

theorem Puts.refl (w : Worklist) : w.Puts [] w := ⟨(List.append_nil _).symm, rfl⟩

theorem Puts.trans (first : w.Puts added v) (second : v.Puts more x) :
    w.Puts (added ++ more) x where
  items := by rw [second.items, first.items, List.append_assoc]
  pushed := by rw [second.pushed, first.pushed, List.length_append, Nat.add_assoc]

theorem puts_push (w : Worklist) (item : WorkItem) :
    w.Puts (if (w.push item).1 then [item] else []) (w.push item).2 where
  items := by
    rw [items_push]
    split
    · rfl
    · exact (List.append_nil _).symm
  pushed := by
    rw [pushed_push]
    split <;> rfl

/-- A visit or a binding is never refused. -/
theorem puts_push_singleton (w : Worklist) (other : item.key? = none) :
    w.Puts [item] (w.push item).2 := by
  have accepted : (w.push item).1 = true := by
    rw [← Bool.not_eq_false, refused_push_iff]
    rintro ⟨k, rfl, -⟩
    cases other
  simpa [accepted] using w.puts_push item

/-- Where only locations are put on a worklist, there are no visits and bindings. -/
theorem Queues.exists_puts (queues : w.Queues v) :
    ∃ added, w.Puts added v ∧ added.filterMap WorkItem.node? = [] ∧
      added.filterMap WorkItem.binding? = [] := by
  have locations : ∃ added, w.Puts added v ∧ ∀ item ∈ added, item.key?.isSome := by
    induction queues with
    | refl => exact ⟨[], .refl w, by simp⟩
    | @push v k _ ih =>
        obtain ⟨added, before, all⟩ := ih
        refine ⟨_, before.trans (v.puts_push (.propagate k)), fun item member => ?_⟩
        rcases List.mem_append.mp member with old | new
        · exact all item old
        · -- what is new is the location, if it was accepted
          split at new
          · rw [List.mem_singleton.mp new]
            rfl
          · cases new
  obtain ⟨added, puts, all⟩ := locations
  refine ⟨added, puts, List.filterMap_eq_nil_iff.mpr fun item member => ?_,
    List.filterMap_eq_nil_iff.mpr fun item member => ?_⟩
  · cases item with
    | propagate k => rfl
    | visit id => cases all _ member
    | target b => rfl
  · cases item with
    | propagate k => rfl
    | visit id => rfl
    | target b => cases all _ member

end Worklist

namespace CallGraph

variable {g : CallGraph}

def functionIds (g : CallGraph) : List Nat :=
  (g.nodes.filter fun n => n.method.function?.isSome).map (·.id)

theorem functionIds_congr {h : CallGraph} (same : h.methods = g.methods) :
    h.functionIds = g.functionIds := by
  unfold functionIds nodes
  rw [same]

theorem nodes_addNode {m : Method} {ctx : Context} (new : g.find? m ctx = none) :
    (g.addNode m ctx).2.nodes = g.nodes ++ [⟨(g.addNode m ctx).1.1, m, ctx⟩] := by
  have unknown : g.methods.find? (m, ctx) = none := new
  simp [nodes, Numbering.entries, addNode, Numbering.numberNew_of_find?_eq_none unknown,
    List.zipIdx_append, Numbering.size_eq_length_values]

theorem functionIds_addNode {m : Method} {ctx : Context} (new : g.find? m ctx = none) :
    (g.addNode m ctx).2.functionIds =
      g.functionIds ++ if m.function?.isSome then [(g.addNode m ctx).1.1] else [] := by
  have last (id : Nat) : ([(⟨id, m, ctx⟩ : Node)].filter fun n => n.method.function?.isSome).map
      (·.id) = if m.function?.isSome then [id] else [] := by
    cases function : m.function?.isSome <;> simp [function]
  unfold functionIds
  rw [nodes_addNode new, List.filter_append, List.map_append, last]

theorem nodup_functionIds (g : CallGraph) : g.functionIds.Nodup := by
  have ids : (g.nodes.map (·.id)).Nodup := by
    have numbers := List.zipIdx_map_snd 0 g.methods.values
    simp only [nodes, Numbering.entries, List.map_map]
    exact numbers ▸ List.nodup_range'
  exact ids.sublist (List.filter_sublist.map _)

theorem mem_nodes_iff {n : Node} : n ∈ g.nodes ↔ g.node? n.id = some n := by
  rw [node?_eq_some_iff, Numbering.value?_eq_getElem?]
  unfold nodes Numbering.entries
  rw [List.map_map, List.mem_map]
  constructor
  · rintro ⟨⟨⟨m, ctx⟩, id⟩, member, rfl⟩
    exact ⟨List.mem_zipIdx_iff_getElem?.mp member, rfl⟩
  · rintro ⟨here, -⟩
    exact ⟨(n.role, n.id), List.mem_zipIdx_iff_getElem?.mpr here, rfl⟩

theorem mem_functionIds_iff {id : Nat} :
    id ∈ g.functionIds ↔ ∃ n, g.node? id = some n ∧ n.method.function?.isSome := by
  simp only [functionIds, List.mem_map, List.mem_filter, mem_nodes_iff]
  constructor
  · rintro ⟨n, ⟨here, function⟩, rfl⟩
    exact ⟨n, here, function⟩
  · rintro ⟨n, here, function⟩
    obtain rfl := (node?_eq_some_iff.mp here).2
    exact ⟨n, ⟨here, function⟩, rfl⟩

end CallGraph

namespace Construction

variable {u : Setup} {c d e : Construction} {n : Role} {item : WorkItem} {rest : Worklist}
  {added more done : List WorkItem}

/-- Some items were put on the worklist: the visits of all nodes that are new and run functions, and
all bindings that are new. Nothing was visited meanwhile. -/
structure Puts (c : Construction) (added : List WorkItem) (d : Construction) : Prop where
  worklist : c.solver.worklist.Puts added d.solver.worklist
  nodes : d.graph.functionIds = c.graph.functionIds ++ added.filterMap WorkItem.node?
  bindings : ∀ bs, c.Lists bs → d.Lists (bs ++ added.filterMap WorkItem.binding?)
  visited : d.visited = c.visited

theorem Puts.trans (first : c.Puts added d) (second : d.Puts more e) :
    c.Puts (added ++ more) e where
  worklist := first.worklist.trans second.worklist
  nodes := by rw [second.nodes, first.nodes, List.filterMap_append, List.append_assoc]
  bindings bs lists := by
    rw [List.filterMap_append, ← List.append_assoc]
    exact second.bindings _ (first.bindings bs lists)
  visited := second.visited.trans first.visited

/-- The second construction has in addition only what was put on the worklist. -/
def Feeds (c d : Construction) : Prop := ∃ added, c.Puts added d

namespace Feeds

theorem trans (first : c.Feeds d) (second : d.Feeds e) : c.Feeds e := by
  obtain ⟨added, before⟩ := first
  obtain ⟨more, after⟩ := second
  exact ⟨added ++ more, before.trans after⟩

/-- Where neither nodes nor bindings are new, only locations may be put on the worklist. -/
theorem of_queues (queues : c.solver.worklist.Queues d.solver.worklist)
    (methods : d.graph.methods = c.graph.methods) (bindings : d.bindings = c.bindings)
    (visited : d.visited = c.visited) : c.Feeds d := by
  obtain ⟨added, puts, visits, targets⟩ := queues.exists_puts
  refine ⟨added, puts, ?_, fun bs lists => ?_, visited⟩
  · rw [visits, List.append_nil]
    exact CallGraph.functionIds_congr methods
  · rw [targets, List.append_nil]
    exact ⟨lists.nodup, fun b => bindings ▸ lists.mem b⟩

theorem of_solver {t : Solver} (queues : c.solver.worklist.Queues t.worklist) :
    c.Feeds { c with solver := t } := of_queues queues rfl rfl rfl

theorem refl (c : Construction) : c.Feeds c := of_queues .refl rfl rfl rfl

theorem foldl {α : Type} {f : Construction → α → Construction} {P : Construction → Prop}
    (xs : List α) (each : ∀ c, P c → ∀ x ∈ xs, c.Feeds (f c x) ∧ P (f c x)) (start : P c) :
    c.Feeds (xs.foldl f c) := by
  induction xs generalizing c with
  | nil => exact .refl c
  | cons x xs ih =>
      obtain ⟨first, next⟩ := each c start x List.mem_cons_self
      have rest := ih (fun c here y member => each c here y (List.mem_cons_of_mem x member)) next
      exact first.trans rest

end Feeds

theorem feeds_nodeFor (c : Construction) (m : Method) (ctx : Context) :
    c.Feeds (c.nodeFor u m ctx).2 := by
  rw [nodeFor]
  split
  · exact .refl c
  · rename_i new
    have nodes := CallGraph.functionIds_addNode new
    split
    · exact .of_queues .refl rfl rfl rfl
    · dsimp only
      split
      · rename_i function
        rw [if_pos function] at nodes
        refine ⟨[.visit (c.graph.addNode m ctx).1.1], Worklist.puts_push_singleton _ rfl, nodes,
          fun bs lists => ?_, rfl⟩
        rw [show [WorkItem.visit _].filterMap WorkItem.binding? = [] from rfl, List.append_nil]
        exact ⟨lists.nodup, lists.mem⟩
      · rename_i none
        rw [if_neg none, List.append_nil] at nodes
        refine ⟨[], .refl _, nodes.trans (List.append_nil _).symm, fun bs lists => ?_, rfl⟩
        rw [List.filterMap_nil, List.append_nil]
        exact ⟨lists.nodup, lists.mem⟩

theorem feeds_connect (c : Construction) (id : Nat) (site : CallSite) (m : Method) (ctx : Context) :
    c.Feeds (c.connect u id site m ctx).2 := by
  have node := feeds_nodeFor (u := u) c m ctx
  rcases called : c.nodeFor u m ctx with ⟨_ | k, d⟩
  · rw [connect_of_none called]
    rw [called] at node
    exact node
  · rw [connect_of_some called]
    rw [called] at node
    exact node.trans (.of_queues .refl (CallGraph.methods_addEdge ..) rfl rfl)

theorem feeds_addBinding (c : Construction) (b : Binding) : c.Feeds (c.addBinding b) := by
  unfold addBinding
  split
  · exact .refl c
  · rename_i new
    refine ⟨[.target b], Worklist.puts_push_singleton _ rfl, (List.append_nil _).symm,
      fun bs lists => ?_, rfl⟩
    constructor
    · refine List.nodup_append.mpr ⟨lists.nodup, by simp [WorkItem.binding?], ?_⟩
      rintro b' member b'' here rfl
      obtain rfl := List.mem_singleton.mp here
      exact new ((lists.mem _).mp member)
    · intro b'
      rw [List.mem_append, lists.mem]
      simp [push, KeySet.contains_insert, WorkItem.binding?]

theorem feeds_addEntry (c : Construction) (e : FunctionId × Nat) : c.Feeds (c.addEntry u e) := by
  have site : c.Feeds { c with graph := c.graph.addSite CallGraph.fakeRoot ⟨e.2, .call⟩ } :=
    .of_queues .refl rfl rfl rfl
  rw [addEntry]
  exact site.trans (feeds_connect ..)

theorem feeds_noteBinding (call : PendingCall) (object : Nat) (x : Option Nat × Construction) :
    x.2.Feeds (noteBinding call object x) := by
  obtain ⟨id, c⟩ := x
  cases id with
  | none => exact .refl c
  | some id => exact feeds_addBinding c _

theorem feeds_dispatchFunction (call : PendingCall) (code : Invocation) (f : FunctionId)
    (object : Nat) (c : Construction) : c.Feeds (c.dispatchFunction u call code f object) := by
  cases here : c.graph.node? call.caller with
  | none =>
      rw [dispatchFunction_of_none here]
      exact .refl c
  | some caller =>
      rw [dispatchFunction_eq here]
      exact (feeds_connect ..).trans (feeds_noteBinding call object _)

theorem feeds_dispatchReceiver (call : PendingCall) (code : Invocation) (d : Dispatch)
    (c : Construction) : c.Feeds (c.dispatchReceiver call code d) := by
  cases receiver : code.receiver with
  | none =>
      rw [dispatchReceiver_of_none receiver]
      exact .refl c
  | some v =>
      rw [dispatchReceiver_of_some receiver]
      have var := (Solver.Builds.location (.var call.caller v) (.refl (s := c.solver))).queues
      exact .of_solver (var.trans (Solver.queues_addConstraint ..))

theorem feeds_dispatchTarget (call : PendingCall) (code : Invocation) (c : Construction)
    (target : DispatchTarget) : c.Feeds (dispatchTarget u call code c target) := by
  cases target with
  | function f object => exact feeds_dispatchFunction call code f object c
  | builtin b =>
      rw [dispatchTarget]
      exact feeds_connect _ _ _ _ _
  | reflective d => exact feeds_dispatchReceiver call code d c

theorem feeds_dispatch (c : Construction) (found : PendingCall × IdSet) :
    c.Feeds (c.dispatch u found) := by
  unfold dispatch
  split
  · exact .refl c
  · exact .foldl (P := fun _ => True) _
      (fun c _ target _ => ⟨feeds_dispatchTarget found.1 _ c target, trivial⟩) trivial

theorem feeds_propagate (valid : c.Valid u) {k : Nat} (bound : k < c.solver.cells.size) :
    c.Feeds (c.propagate u k) := by
  obtain ⟨p, here⟩ := valid.solver.place bound
  obtain ⟨sent, passed, -⟩ := Solver.enacts_propagate valid.solver c.nodesDistinct here
  have moved : c.Feeds { c with solver := (c.solver.propagate k).2 } :=
    .of_solver passed.builds.queues
  exact moved.trans (.foldl (P := fun _ => True) _
    (fun c _ found _ => ⟨feeds_dispatch c found, trivial⟩) trivial)

theorem feeds_addInstruction (valid : c.Valid u) {id : Nat} (here : c.roles id = some n)
    (f : FunctionBody) (i : Instruction × Nat) :
    c.Feeds (c.addInstruction u ⟨id, n.1, n.2⟩ f i) := by
  have added := (Solver.enacts_addInstruction (n := n) valid.solver u.heap ⟨id, n.2, f.id, i.2⟩ here
    rfl i.1).builds
  refine .of_queues added.queues ?_ rfl rfl
  unfold addInstruction
  dsimp only
  split <;> rfl

theorem feeds_bind (valid : c.Valid u) {b : Binding} {x : Encounter}
    (means : c.solver.Means c.roles b x) : c.Feeds (c.bind u b) := by
  unfold bind
  rw [node?_eq, means.caller, body?_eq means.caller, call?_eq means.caller, body?_eq means.callee]
  split
  · rename_i caller f call callee same _ _ _
    cases same
    have bound := Solver.enacts_bind valid.solver means u.heap ⟨b.caller, x.caller.2, f.id, b.pc⟩
      rfl rfl rfl call callee
    exact .of_solver bound.builds.queues
  · exact .refl c

/-- What was taken and what waits is all that was ever put on the worklist: a visit of each node
that runs a function and each binding, in the order in which they came. -/
structure Tallied (done : List WorkItem) (c : Construction) : Prop where
  pushed : c.solver.worklist.pushed = (done ++ c.solver.worklist.items).length
  nodes : c.graph.functionIds = (done ++ c.solver.worklist.items).filterMap WorkItem.node?
  bindings : c.Lists ((done ++ c.solver.worklist.items).filterMap WorkItem.binding?)
  visited : c.visited = (done.filterMap WorkItem.node?).length

theorem Tallied.feed (tallied : c.Tallied done) (feeds : c.Feeds d) : d.Tallied done := by
  obtain ⟨added, puts⟩ := feeds
  have all : done ++ d.solver.worklist.items = done ++ c.solver.worklist.items ++ added := by
    rw [puts.worklist.items, List.append_assoc]
  refine ⟨?_, ?_, ?_, puts.visited.trans tallied.visited⟩
  · rw [all, List.length_append, puts.worklist.pushed, tallied.pushed]
  · rw [all, List.filterMap_append, puts.nodes, tallied.nodes]
  · rw [all, List.filterMap_append]
    exact puts.bindings _ tallied.bindings

theorem tallied_start (u : Setup) : (start u).Tallied [] := by
  have empty : (Solver.new u.reflection).worklist.items = [] := rfl
  have blank : (blank u).Tallied [] :=
    ⟨rfl, rfl, ⟨.nil, fun b => by simp [Construction.blank, empty]⟩, rfl⟩
  have seeded : (Construction.blank u).Feeds (seeded u) :=
    .of_queues (Solver.enacts_seed (valid_blank u).solver).builds.queues rfl rfl rfl
  have entered : (Construction.seeded u).Feeds (start u) :=
    .foldl (P := fun _ => True) _ (fun c _ e _ => ⟨feeds_addEntry c e, trivial⟩) trivial
  exact blank.feed (seeded.trans entered)

/-- An item that is taken is one of those that were put there, whatever is noted about the
visits. -/
theorem Tallied.popped (tallied : c.Tallied done) (pop : c.solver.worklist.pop = some (item, rest))
    (worked : List Nat) : Tallied (done ++ [item]) { c.popped rest with
      visited := c.visited + ([item].filterMap WorkItem.node?).length, worked } := by
  have all : done ++ [item] ++ rest.items = done ++ c.solver.worklist.items := by
    rw [Worklist.items_of_pop pop, List.append_assoc, List.singleton_append]
  refine ⟨?_, ?_, ?_, ?_⟩
  · exact (Worklist.pushed_of_pop pop).trans (tallied.pushed.trans (congrArg List.length all.symm))
  · exact tallied.nodes.trans (congrArg _ all.symm)
  · have lists : c.Lists ((done ++ [item] ++ rest.items).filterMap WorkItem.binding?) := by
      rw [all]
      exact tallied.bindings
    exact ⟨lists.nodup, lists.mem⟩
  · rw [List.filterMap_append, List.length_append, ← tallied.visited]

/-- A visit that waits is one of a node that runs a function. -/
theorem Tallied.exists_role (tallied : c.Tallied done) {id : Nat}
    (waits : .visit id ∈ c.solver.worklist.items) :
    ∃ n, c.roles id = some n ∧ n.1.function?.isSome := by
  have function : id ∈ c.graph.functionIds := by
    rw [tallied.nodes]
    exact List.mem_filterMap.mpr ⟨_, List.mem_append_right _ waits, rfl⟩
  obtain ⟨n, node, runs⟩ := CallGraph.mem_functionIds_iff.mp function
  exact ⟨n.role, (CallGraph.node?_eq_some_iff.mp node).1, runs⟩

section Reached

variable (wf : u.program.WellFormed) (reached : Reached u c) (below : c.ceilingHit = false)
  (tallied : c.Tallied done) (pop : c.solver.worklist.pop = some (item, rest))

include wf reached tallied pop in
/-- A visit that is taken is one of a node that runs a function with code, and is counted. -/
theorem Reached.tallied_visit {i : Nat} (same : item = .visit i) :
    Tallied (done ++ [item]) ((c.popped rest).visit u i) := by
  have takes := Worklist.takes_of_pop pop
  obtain ⟨n, here, function⟩ := tallied.exists_role ((takes.mem_iff _).mpr (.inl same.symm))
  obtain ⟨f, body⟩ := reached.exists_body wf here function
  have valid := reached.valid.popped takes
  have counted := tallied.popped pop (f.instructions.length :: c.worked)
  rw [same] at counted ⊢
  refine counted.feed ?_
  have lookup : (c.popped rest).roles i = some n := here
  unfold visit
  rw [node?_eq, body?_eq lookup, lookup, body]
  refine .foldl (P := fun d => d.Valid u ∧ d.roles i = some n) _ ?_
    ⟨(Enacts.of_counts valid _ _).valid, here⟩
  rintro d ⟨valid, here⟩ ⟨x, pc⟩ member
  have stands := List.mem_zipIdx_iff_getElem?.mp member
  have enacted := enacts_addInstruction valid here body stands
  exact ⟨feeds_addInstruction valid here f (x, pc), enacted.valid, enacted.grows.roles _ _ here⟩

include wf reached below tallied pop in
theorem Reached.tallied_process : Tallied (done ++ [item]) ((c.popped rest).process u item) := by
  have takes := Worklist.takes_of_pop pop
  have valid := reached.valid.popped takes
  have waits : item ∈ c.solver.worklist.items := (takes.mem_iff item).mpr (.inl rfl)
  have counted := tallied.popped pop c.worked
  cases item with
  | propagate k =>
      have some := (reached.settled below).flow.waits k waits
      exact counted.feed (feeds_propagate valid (valid.solver.lt_size_of_members some))
  | visit i => exact reached.tallied_visit wf tallied pop rfl
  | target b =>
      obtain ⟨x, means⟩ := valid.bindings b (reached.valid.queued b waits)
      exact counted.feed (feeds_bind valid means)

end Reached

/-- However long a run goes on and whatever stops it, its items are tallied. -/
theorem Reached.tallied_runWithin (wf : u.program.WellFormed) (monitor : Nat → Option CancelReason)
    (fuel : Nat) (reached : Reached u c) (tallied : c.Tallied done) :
    (c.runWithin u monitor fuel).2.Tallied (done ++ c.taken u monitor fuel) := by
  refine (runWithin_carries (I := fun done c => Reached u c ∧ c.Tallied done) ?_ monitor fuel
    done ⟨reached, tallied⟩).2
  rintro done c item rest below pop ⟨reached, tallied⟩
  exact ⟨reached.process below (Worklist.takes_of_pop pop),
    reached.tallied_process wf below tallied pop⟩

end Construction

end CallFlow
