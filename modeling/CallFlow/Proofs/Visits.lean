import Mathlib.Data.List.Nodup
import CallFlow.Proofs.Construction.Origins
import CallFlow.Proofs.LeastSolution
import CallFlow.Proofs.Termination

/-! What is visited and bound. A node that runs a function is put on the worklist to be visited
once, and a binding once to be bound; in a complete run every one of them was worked off. -/

namespace CallFlow

open Construction

variable {p : Program} {o : Options} {u : Setup} {c : Construction} {done : List WorkItem}

/-- What a run worked off and what waits then is all that it put on the worklist, and in it each
node that runs a function is to be visited just once, and each binding that was made is to be bound
just once. What was visited and bound is there and has code, and what that found out is known. -/
structure Construction.Once (u : Setup) (done : List WorkItem) (c : Construction) : Prop where
  all : c.solver.worklist.pushed = (done ++ c.solver.worklist.items).length
  queued : ∀ n f, c.graph.node? n.id = some n → n.method = .function f →
    (done ++ c.solver.worklist.items).count (.visit n.id) = 1
  visited : ∀ id, done.count (.visit id) ≤ 1
  counted : c.visited = (done.filterMap WorkItem.node?).length
  made : ∀ b, (done ++ c.solver.worklist.items).count (.target b) =
    if c.bindings.contains b then 1 else 0
  bound : ∀ b, done.count (.target b) ≤ 1
  real : ∀ item ∈ done, item.key? = none → c.Resolves u item
  informed : c.Informed u done

/-- All nodes of an answer that run functions were visited, and for each edge between two of them
some function object was bound, and what that binding asked for holds in the answer. -/
structure Analysis.WorkedOff (u : Setup) (done : List WorkItem) (a : Analysis) : Prop where
  visited : ∀ n ∈ a.functionNodes, done.count (.visit n.id) = 1
  counted : a.counters.visitedNodes = a.functionNodes.length
  bound : ∀ e ∈ a.graph.edges, ∀ n ∈ a.functionNodes, ∀ m ∈ a.functionNodes, n.id = e.caller →
    m.id = e.callee → ∃ (b : Binding) (x : AbstractObject), done.count (.target b) = 1 ∧
      b.caller = e.caller ∧ b.pc = e.site.pc ∧ b.callee = e.callee ∧
      a.solution.objects.value? b.function = some x ∧
      ∀ j ∈ u.bindFindings ⟨n.role, b.pc, m.role, x, b.dispatch⟩,
        Solver.Upheld u.reflection a.Holds j

namespace Construction

theorem Tallied.count_visit (tallied : c.Tallied done) (id : Nat) :
    (done ++ c.solver.worklist.items).count (.visit id) = c.graph.functionIds.count id := by
  rw [tallied.nodes, WorkItem.count_filterMap_node?]

theorem Tallied.count_target (tallied : c.Tallied done) (b : Binding) :
    (done ++ c.solver.worklist.items).count (.target b) =
      if c.bindings.contains b then 1 else 0 := by
  rw [← WorkItem.count_filterMap_binding?]
  split
  · rename_i made
    exact List.count_eq_one_of_mem tallied.bindings.nodup ((tallied.bindings.mem b).mpr made)
  · rename_i new
    exact List.count_eq_zero_of_not_mem fun member => new ((tallied.bindings.mem b).mp member)

theorem Tallied.mem_functionIds (tallied : c.Tallied done) {id : Nat} (taken : .visit id ∈ done) :
    id ∈ c.graph.functionIds := by
  rw [tallied.nodes]
  exact List.mem_filterMap.mpr ⟨_, List.mem_append_left _ taken, rfl⟩

theorem Tallied.contains (tallied : c.Tallied done) {b : Binding} (taken : .target b ∈ done) :
    c.bindings.contains b = true := by
  rw [← tallied.bindings.mem]
  exact List.mem_filterMap.mpr ⟨_, List.mem_append_left _ taken, rfl⟩

theorem Reached.once (wf : u.program.WellFormed) (reached : Reached u c) (tallied : c.Tallied done)
    (informed : c.Informed u done) : c.Once u done where
  all := tallied.pushed
  queued n f here function := by
    rw [tallied.count_visit]
    refine List.count_eq_one_of_mem (CallGraph.nodup_functionIds _) ?_
    exact CallGraph.mem_functionIds_iff.mpr ⟨n, here, by rw [function]; rfl⟩
  visited id := by
    have once := List.nodup_iff_count_le_one.mp (CallGraph.nodup_functionIds c.graph) id
    rw [← tallied.count_visit, List.count_append] at once
    omega
  counted := tallied.visited
  made := tallied.count_target
  bound b := by
    have once := List.nodup_iff_count_le_one.mp tallied.bindings.nodup b
    rw [WorkItem.count_filterMap_binding?, List.count_append] at once
    omega
  real item taken other := by
    cases item with
    | propagate k => cases other
    | visit id =>
        obtain ⟨n, node, function⟩ :=
          CallGraph.mem_functionIds_iff.mp (tallied.mem_functionIds taken)
        have here : c.roles id = some n.role := (CallGraph.node?_eq_some_iff.mp node).1
        obtain ⟨f, body⟩ := reached.exists_body wf here function
        exact ⟨n, f, node, (body?_eq here).trans body⟩
    | target b => exact reached.resolves_target wf (tallied.contains taken)
  informed := informed

/-- The nodes of an answer that run functions are those of the construction. -/
theorem mem_functionNodes_finish_iff (valid : c.Valid u) (ended : Completion) {n : Node} :
    n ∈ (c.finish u ended).functionNodes ↔
      n ∈ c.graph.nodes.filter fun n => n.method.function?.isSome := by
  unfold Analysis.functionNodes
  simp only [List.mem_filter, CallGraph.mem_nodes_iff, CallGraph.node?_eq_some_iff, and_true]
  refine and_congr_left fun function => ⟨fun here => ?_, methods_finish c u ended valid _ _⟩
  refine (value?_finish valid here).resolve_right fun ⟨_, unknown, _⟩ => ?_
  rw [show n.method = .unknown from congrArg Prod.fst unknown] at function
  cases function

theorem length_functionNodes_finish (valid : c.Valid u) (ended : Completion) :
    (c.finish u ended).functionNodes.length = c.graph.functionIds.length := by
  have distinct : ∀ g : CallGraph, (g.nodes.filter fun n => n.method.function?.isSome).Nodup :=
    fun g => .of_map Node.id g.nodup_functionIds
  have same := (List.perm_ext_iff_of_nodup (distinct _) (distinct _)).mpr fun _ =>
    mem_functionNodes_finish_iff valid ended
  unfold CallGraph.functionIds
  rw [List.length_map]
  exact same.length_eq

theorem knows_binding_iff {n m : Role} {pc : Nat} {x : AbstractObject} {d : Dispatch} :
    c.Knows (.binding n pc m x d) ↔
      ∃ b, c.bindings.contains b = true ∧ c.solver.Means c.roles b ⟨n, pc, m, x, d⟩ := by
  constructor
  · intro known
    cases known with
    | solver known => cases known
    | binding made means => exact ⟨_, made, means⟩
  · exact fun ⟨b, made, means⟩ => .binding made means

/-- An edge that is known between functions was found by some binding. -/
theorem Reached.exists_binding (reached : Reached u c) (below : c.ceilingHit = false)
    (idle : c.solver.worklist.items = []) {n m : Role} {site : CallSite}
    (caller : n.1.function?.isSome) (callee : m.1.function?.isSome)
    (edge : c.Knows (.edge n site m)) :
    ∃ b x d, c.bindings.contains b = true ∧ c.solver.Means c.roles b ⟨n, site.pc, m, x, d⟩ := by
  rcases Setup.follows_edge_iff.mp (reached.sound _ edge) with
    ⟨rfl, -⟩ | ⟨node, call, here, -, d, x, found, way⟩
  · cases caller
  · rcases way with ⟨h, function, rfl⟩ | ⟨b, -, -, -, rfl⟩
    · have follows := Setup.follows_binding_iff.mpr ⟨node, call, h, here, found, function, rfl⟩
      obtain ⟨b, made, means⟩ := knows_binding_iff.mp ((reached.knows_iff below idle _).mpr follows)
      exact ⟨b, x, d, made, means⟩
    · cases callee

/-- An edge of the answer is an old one, or leads to the unknown, which is no function. -/
theorem Valid.runs_of_finish (valid : c.Valid u) {e : Edge}
    (member : e ∈ (c.finish u .complete).graph.edges) {m : Role} (here : c.roles e.callee = some m)
    (calls : m.1.function?.isSome) : c.graph.Runs e.caller e.site e.callee := by
  have sealed := valid.graph.sealed
  have run := (sealed.wellFormed.mem_edges_iff e).mp member
  refine ((sealed.runs _ _ _).mp run).resolve_right fun unknown => ?_
  have same : m = Role.unknown :=
    Option.some.inj ((sealed.methods _ _ here).symm.trans unknown.2)
  subst same
  cases calls

/-- What is known holds in the answer. -/
theorem Reached.upheld (reached : Reached u c) (below : c.ceilingHit = false)
    (idle : c.solver.worklist.items = []) {j : Finding Role} (known : c.Knows j) :
    Solver.Upheld u.reflection (c.finish u .complete).Holds j := by
  have held : (c.finish u .complete).Holds = fun p o => u.Follows (.holds p o) :=
    funext fun p => funext fun o => propext ((reached.exact_finish below idle).holds p o)
  have solves := (flowing_of_closed (Derivable.closed u.Rule)).solves
  have follows := reached.sound j known
  rw [held]
  cases j with
  | holds p o => exact follows
  | flows p q => exact solves.edges p q follows
  | attached p d => exact solves.demands p d follows
  | _ => trivial

theorem Reached.workedOff (reached : Reached u c) (below : c.ceilingHit = false)
    (idle : c.solver.worklist.items = []) (tallied : c.Tallied done)
    (informed : c.Informed u done) : (c.finish u .complete).WorkedOff u done := by
  have valid := reached.valid
  obtain ⟨-, nodes, bindings, counted⟩ := tallied
  rw [idle, List.append_nil] at nodes bindings
  have known : ∀ n ∈ (c.finish u .complete).functionNodes, c.roles n.id = some n.role ∧
      n.id ∈ c.graph.functionIds := by
    intro n member
    have old := (mem_functionNodes_finish_iff valid .complete).mp member
    have here := CallGraph.mem_nodes_iff.mp (List.mem_filter.mp old).1
    exact ⟨(CallGraph.node?_eq_some_iff.mp here).1, List.mem_map_of_mem old⟩
  refine ⟨fun n member => ?_, ?_, fun e member n caller m callee here there => ?_⟩
  · rw [← WorkItem.count_filterMap_node?, ← nodes]
    exact List.count_eq_one_of_mem (CallGraph.nodup_functionIds _) (known n member).2
  · rw [length_functionNodes_finish valid, nodes]
    exact counted
  · have first := (known n caller).1
    have second := (known m callee).1
    have calls := (List.mem_filter.mp callee).2
    have edge := valid.runs_of_finish member (there ▸ second) calls
    rw [← here, ← there] at edge ⊢
    obtain ⟨b, x, d, found, means⟩ := reached.exists_binding below idle
      (List.mem_filter.mp caller).2 calls (.edge first edge second)
    have once : done.count (.target b) = 1 := by
      rw [← WorkItem.count_filterMap_binding?]
      exact List.count_eq_one_of_mem bindings.nodup ((bindings.mem b).mpr found)
    have worked : .target b ∈ done := List.count_pos_iff.mp (by omega)
    -- what the binding stood for when it was bound is what it stands for in the end
    obtain ⟨y, stands, asked⟩ := informed.binds worked
    obtain rfl := stands.unique means
    refine ⟨b, x, once, Numbering.value?_inj means.caller first, means.pc,
      Numbering.value?_inj means.callee second, means.function, ?_⟩
    rw [means.pc, means.dispatch]
    exact fun j bound => reached.upheld below idle (asked j bound)

end Construction

/-- Each node is to be visited once and each binding to be bound once, in every run, and what that
found out is known; and a complete run visited every node that runs a function and bound a function
object for each edge between two of them. -/
theorem worked_off_once (program : p.validate = .ok ()) (options : o.validate = .ok ())
    (monitor : Nat → Option CancelReason) :
    let u := Setup.ofOptions p o
    (∀ fuel, ((start u).runWithin u monitor fuel).2.Once u ((start u).taken u monitor fuel)) ∧
    ∃ a, analyze p o monitor = .ok a ∧ (a.completion = .complete →
      a.WorkedOff u ((start u).taken u monitor (p.stepBound + 1))) := by
  intro u
  have wf : u.program.WellFormed := Program.wellFormed_of_validate program
  have started := reached_start u
  have tallied := fun fuel => started.tallied_runWithin wf monitor fuel (tallied_start u)
  have informed := fun fuel =>
    started.informed_runWithin wf monitor fuel (tallied_start u) informed_nil
  refine ⟨fun fuel => (started.runWithin monitor fuel).1.once wf (tallied fuel) (informed fuel), _,
    analyze_eq program options monitor, fun complete => ?_⟩
  obtain ⟨reached, ended⟩ := started.runWithin monitor (u.program.stepBound + 1)
  obtain ⟨below, idle⟩ := ended complete
  have last : (start u).runWithin u monitor (u.program.stepBound + 1) =
      (.complete, u.last monitor) := Prod.ext complete rfl
  rw [Setup.run, last]
  exact reached.workedOff below idle (tallied (u.program.stepBound + 1))
    (informed (u.program.stepBound + 1))

/-- After ten steps one of the small program's nodes waits to be visited, and after all steps
none. -/
theorem worked_off_once_tour :
    let u := Setup.ofOptions .tour .thorough
    Program.tour.validate = .ok () ∧ Options.thorough.validate = .ok () ∧
    ((start u).runWithin u (fun _ => none) 10).2.Once u ((start u).taken u (fun _ => none) 10) ∧
    ((start u).runWithin u (fun _ => none) 10).2.visited = 1 ∧
    .visit 2 ∈ ((start u).runWithin u (fun _ => none) 10).2.solver.worklist.items ∧
    ∃ a, analyze .tour .thorough (fun _ => none) = .ok a ∧ a.completion = .complete ∧
      a.counters.visitedNodes = 4 ∧
      a.WorkedOff u ((start u).taken u (fun _ => none) (u.program.stepBound + 1)) := by
  intro u
  have program : Program.tour.validate = .ok () := by rfl
  have options : Options.thorough.validate = .ok () := by rfl
  obtain ⟨once, a, run, ended⟩ := worked_off_once program options fun _ => none
  have answer : a.completion = .complete ∧ a.counters.visitedNodes = 4 := by
    obtain ⟨-, -, rfl⟩ := analyze_eq_ok_iff.mp run
    decide +kernel
  exact ⟨program, options, once 10, by decide +kernel, by decide +kernel, a, run, answer.1,
    answer.2, ended answer.1⟩

end CallFlow
