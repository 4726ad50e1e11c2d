import CallFlow.Proofs.Analysis
import CallFlow.Proofs.Construction.Variables

/-! How calls pass objects: in a complete answer receivers, parameters and results hold just what
the calls pass and give back, and what constructions allocate. -/

namespace CallFlow

/-- A call of a node, which runs a function, is dispatched to a role: in some way it finds a
function object for it. -/
structure Analysis.Dispatches (p : Program) (o : Options) (a : Analysis) (n : Node)
    (f : FunctionBody) (pc : Nat) (call : Invocation) (d : Dispatch) (m : Role) : Prop where
  node : a.graph.node? n.id = some n
  body : n.body? p = some f
  here : f.callAt? pc = some call
  found : ∃ x g receivers, call.Finds o.handleCallApply (a.HeldBy n) d x ∧ x.function? = some g ∧
    m = (.function g, o.algorithm.select ⟨n, ⟨pc, call.kind⟩, d, g, receivers⟩)

/-- The object that a construction allocates at a place of a function when a node runs it. -/
def Options.fresh (o : Options) (n : Node) (f : FunctionBody) (pc : Nat) : AbstractObject :=
  (HeapPolicy.ofOptions o).allocation ⟨f.id, pc, .object⟩ n.context

/-- Variables and result of a node that runs a function hold just what is passed to them. -/
structure Analysis.BindsAt (p : Program) (o : Options) (a : Analysis) (m : Node)
    (body : FunctionBody) : Prop where
  receiver : ∀ x, a.HeldBy m body.thisVar x ↔ ∃ n f pc call d,
    a.Dispatches p o n f pc call d m.role ∧ call.Receiver (a.HeldBy n) (o.fresh n f pc) d x
  params : ∀ (k : Nat) v, body.params[k]? = some v → ∀ x, a.HeldBy m v x ↔ ∃ n f pc call d,
    a.Dispatches p o n f pc call d m.role ∧ call.Argument (a.HeldBy n)
      (Slot.element.Reads (fun y s z => a.Holds (.field y s) z) o.reflection) d k x
  result : ∀ x, a.Holds (.result m.role) x ↔
    ∃ v, .ret (some v) ∈ body.instructions ∧ a.HeldBy m v x
  dst : ∀ pc call v, body.callAt? pc = some call → call.dst = some v → ∀ x, a.HeldBy m v x ↔
    (∃ d n, a.Dispatches p o m body pc call d n ∧ a.Holds (.result n) x) ∨
    call.kind = .construct ∧ (∃ n, a.Dispatches p o m body pc call .direct n) ∧
      x = o.fresh m body pc

variable {p : Program} {o : Options} {a : Analysis} {m n : Node} {r : Role} {f : FunctionBody}
  {pc : Nat} {call : Invocation} {d : Dispatch}

/-- The calls that are dispatched to a role in an exact answer are those that are bound to it. -/
theorem Analysis.Exact.dispatches_iff (exact : a.Exact (.ofOptions p o))
    (node : a.graph.node? n.id = some n) :
    a.Dispatches p o n f pc call d r ↔ (Setup.ofOptions p o).Binds n.role f pc call d r := by
  have held := exact.heldBy_eq n
  constructor
  · rintro ⟨-, body, here, x, g, receivers, finds, function, rfl⟩
    have here := (Setup.callOf?_of_body? o body).trans here
    obtain ⟨g', method⟩ := Node.function_of_body? body
    refine ⟨body, here, x, Setup.follows_binding_iff.mpr ⟨?_, call, g, here, ?_, function, ?_⟩⟩
    · exact exact.follows_function node method
    · exact held ▸ finds
    · rw [Algorithm.select_eq]
      rfl
  · rintro ⟨body, here, x, binding⟩
    obtain ⟨-, call', g, here', finds, function, rfl⟩ := Setup.follows_binding_iff.mp binding
    rw [here] at here'
    cases here'
    refine ⟨node, body, (Setup.callOf?_of_body? o body).symm.trans here, x, g, [], held ▸ finds,
      function, ?_⟩
    rw [Algorithm.select_eq]
    rfl

/-- What is bound in an exact answer has a node. -/
theorem Analysis.Exact.exists_node (exact : a.Exact (.ofOptions p o))
    (binds : (Setup.ofOptions p o).Binds r f pc call d m.role) :
    ∃ n : Node, a.graph.node? n.id = some n ∧ n.role = r := by
  obtain ⟨x, binding⟩ := binds.bound
  obtain ⟨i, here⟩ := exact.known r (Setup.follows_binding_iff.mp binding).1
  exact ⟨⟨i, r.1, r.2⟩, CallGraph.node?_eq_some_iff.mpr ⟨here, rfl⟩, rfl⟩

/-- Receivers, parameters and results of a complete answer hold just what calls pass. -/
theorem binds_of_analyze {monitor : Nat → Option CancelReason}
    (run : analyze p o monitor = .ok a) (complete : a.completion = .complete) {g : FunctionId}
    (node : a.graph.node? m.id = some m) (function : m.method = .function g) :
    ∃ body, p.function? g = some body ∧ a.BindsAt p o m body := by
  obtain ⟨valid, -⟩ := exists_reached_of_analyze run
  have wf : (Setup.ofOptions p o).program.WellFormed := Program.wellFormed_of_validate valid
  have exact := exact_of_analyze run complete
  have follows := exact.follows_function node function
  obtain ⟨body, code⟩ : ∃ body, p.function? g = some body :=
    Setup.Follows.exists_body wf follows function
  have runs : (Setup.ofOptions p o).bodyOf? m.role = some body :=
    Node.body?_of_function function code
  have passes : ∀ {P : Role → FunctionBody → Nat → Invocation → Dispatch → Prop},
      (∃ r f pc call d, (Setup.ofOptions p o).Binds r f pc call d m.role ∧ P r f pc call d) ↔
        ∃ n f pc call d, a.Dispatches p o n f pc call d m.role ∧ P n.role f pc call d := by
    intro P
    constructor
    · rintro ⟨r, f, pc, call, d, binds, given⟩
      obtain ⟨n, stands, rfl⟩ := exact.exists_node binds
      exact ⟨n, f, pc, call, d, (exact.dispatches_iff stands).mpr binds, given⟩
    · rintro ⟨n, f, pc, call, d, dispatches, given⟩
      exact ⟨n.role, f, pc, call, d, (exact.dispatches_iff dispatches.node).mp dispatches, given⟩
  refine ⟨body, code, fun x => ?_, fun k v param x => ?_, fun x => ?_,
    fun pc call v here dst x => ?_⟩
  · simp only [exact.heldBy_eq]
    exact (Setup.follows_receiver_iff wf runs).trans passes
  · simp only [exact.heldBy_eq, exact.holds]
    exact (Setup.follows_param_iff wf runs param).trans passes
  · simp only [exact.heldBy_eq, exact.holds]
    exact Setup.follows_result_iff follows runs
  · have known := (Setup.callOf?_of_body? o (Node.body?_of_function function code)).trans here
    simp only [exact.heldBy_eq, exact.holds, exact.dispatches_iff node]
    exact Setup.follows_dst_iff wf runs known dst

theorem binds_tour : ∃ a body, analyze .tour .thorough (fun _ => none) = .ok a ∧
    a.completion = .complete ∧ a.graph.node? 2 = some ⟨2, .function 1, .callString 0 9⟩ ∧
    a.BindsAt .tour .thorough ⟨2, .function 1, .callString 0 9⟩ body := by
  obtain ⟨a, run, complete, node⟩ := analyze_tour
  obtain ⟨body, -, binds⟩ := binds_of_analyze (m := ⟨2, .function 1, .callString 0 9⟩) run complete
    node rfl
  exact ⟨a, body, run, complete, node, binds⟩

end CallFlow
