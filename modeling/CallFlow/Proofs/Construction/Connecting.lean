import CallFlow.Proofs.Construction.Rules

/-! What connecting a call comes to, as equations: the node for a role is an old one, none, or a new
one, and the call runs what there is and then notes the binding. -/

namespace CallFlow.Construction

variable {u : Setup} {c d : Construction} {m : Method} {ctx : Context} {k : Nat}

theorem nodeFor_of_known (found : c.graph.find? m ctx = some k) :
    c.nodeFor u m ctx = (some k, c) := by
  rw [nodeFor, found]

theorem nodeFor_of_full (new : c.graph.find? m ctx = none) (full : c.isFull u = true) :
    c.nodeFor u m ctx = (none, { c with ceilingHit := true }) := by
  rw [nodeFor, new]
  exact if_pos full

/-- Besides the node, only something that waits is new. -/
theorem nodeFor_of_new (new : c.graph.find? m ctx = none) (room : c.isFull u = false) :
    ∃ t, c.nodeFor u m ctx = (some (c.graph.addNode m ctx).1.1,
      { c with graph := (c.graph.addNode m ctx).2, solver := t }) := by
  rw [nodeFor, new]
  dsimp only
  rw [if_neg (by simp [room])]
  split
  · exact ⟨_, rfl⟩
  · exact ⟨_, rfl⟩

theorem connect_of_some (node : c.nodeFor u m ctx = (some k, d)) (id : Nat) (site : CallSite) :
    c.connect u id site m ctx = (some k, { d with graph := (d.graph.addEdge id site k).2 }) := by
  rw [connect, node]

theorem connect_of_none (node : c.nodeFor u m ctx = (none, d)) (id : Nat) (site : CallSite) :
    c.connect u id site m ctx = (none, d) := by
  rw [connect, node]

/-- What a call does about the function that it was connected with. -/
def noteBinding (call : PendingCall) (object : Nat) : Option Nat × Construction → Construction
  | (none, c) => c
  | (some id, c) => c.addBinding ⟨call.caller, call.pc, id, object, call.dispatch⟩

theorem dispatchFunction_eq {call : PendingCall} {caller : Node} {f : FunctionId} {object : Nat}
    {code : Invocation} (here : c.graph.node? call.caller = some caller) :
    c.dispatchFunction u call code f object = noteBinding call object
      (c.connect u call.caller ⟨call.pc, code.kind⟩ (.function f)
        (u.algorithm.contextOf caller.method ⟨call.pc, code.kind⟩ call.dispatch)) := by
  rw [dispatchFunction, here]
  dsimp only
  rw [Algorithm.select_eq]
  generalize c.connect u call.caller ⟨call.pc, code.kind⟩ (.function f) _ = callee
  obtain ⟨id, d⟩ := callee
  cases id with
  | none => rfl
  | some id => rfl

theorem dispatchFunction_of_none {call : PendingCall} {f : FunctionId} {object : Nat}
    {code : Invocation} (missing : c.graph.node? call.caller = none) :
    c.dispatchFunction u call code f object = c := by
  rw [dispatchFunction, missing]

theorem dispatchReceiver_of_none {call : PendingCall} {code : Invocation}
    (missing : code.receiver = none) (d : Dispatch) : c.dispatchReceiver call code d = c := by
  rw [dispatchReceiver, missing]

theorem dispatchReceiver_of_some {call : PendingCall} {code : Invocation} {v : VarId}
    (receiver : code.receiver = some v) (d : Dispatch) :
    c.dispatchReceiver call code d = { c with
      solver := ((c.solver.var call.caller v).2.addConstraint (c.solver.var call.caller v).1
        (.invoke { call with dispatch := d })).2 } := by
  rw [dispatchReceiver, receiver]

end CallFlow.Construction
