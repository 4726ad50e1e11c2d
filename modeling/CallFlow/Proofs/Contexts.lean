import Mathlib.Data.Set.Function
import CallFlow.Proofs.Calling
import CallFlow.Proofs.Construction.Grounds

/-! Which calls the contexts of nodes name. A node is created with the first of its edges, whose
dispatch chose the context, so that its context names none in particular, or the one place of all
its edges. -/

namespace CallFlow

/-- The place of the one call that a context is for. -/
def Context.place? : Context → Option (FunctionId × Nat)
  | .everywhere => none
  | .callString f pc => some (f, pc)

theorem Context.place?_injective : Function.Injective place? := by
  intro c d same
  cases c <;> cases d <;> simp_all [place?]

namespace Setup

variable {u : Setup} {known : Finding Role → Prop} {n m : Role} {site : CallSite} {g : FunctionId}

/-- How an edge to a function came by the context of its callee. -/
inductive Chosen (u : Setup) (held : VarId → AbstractObject → Prop) (n : Role) (site : CallSite) :
    Context → Prop
  | root : n = .root → site.kind = .call → Chosen u held n site .everywhere
  | call {f call d o} : n.1 = .function f → u.callOf? n site.pc = some call →
      site.kind = call.kind → call.Finds u.callsReceiver held d o →
      Chosen u held n site (u.algorithm.contextOf n.1 site d)

theorem function_of_callOf? {pc : Nat} {call : Invocation} (here : u.callOf? n pc = some call) :
    ∃ f, n.1 = .function f := by
  obtain ⟨body, runs, -⟩ := Option.bind_eq_some_iff.mp here
  obtain ⟨f, function, -⟩ := bodyOf?_eq_some_iff.mp runs
  exact ⟨f, function⟩

theorem Grounded.chosen (grounded : u.Grounded known) (edge : known (.edge n site m))
    (function : m.1 = .function g) :
    u.Chosen (fun v x => known (.holds (.var n v) x)) n site m.2 := by
  rcases grounded.edge edge with ⟨root, kind, e, -, rfl⟩ | ⟨-, call, here, kind, d, o, finds, runs⟩
  · exact .root root kind
  · obtain ⟨f, caller⟩ := function_of_callOf? here
    rcases runs with ⟨g', -, rfl⟩ | ⟨b, -, -, -, rfl⟩
    · have same : site = ⟨site.pc, call.kind⟩ := by rw [← kind]
      rw [calleeOf, ← same]
      exact .call caller here kind finds
    · cases function

section Chosen

variable {held : VarId → AbstractObject → Prop} {c : Context}

theorem Chosen.of_zeroCfa (chosen : u.Chosen held n site c) (zero : u.algorithm = .zeroCfa) :
    c = .everywhere := by
  cases chosen with
  | root root kind => rfl
  | call caller here kind finds => rw [zero, Algorithm.contextOf]

theorem Chosen.of_oneCfa (chosen : u.Chosen held n site c) (one : u.algorithm = .oneCfa) :
    (n = .root ∧ c = .everywhere) ∨ ∃ f, n.1 = .function f ∧ c = .callString f site.pc := by
  cases chosen with
  | root root kind => exact .inl ⟨root, rfl⟩
  | @call f call d o caller here kind finds =>
      refine .inr ⟨f, caller, ?_⟩
      rw [one, Algorithm.contextOf, caller]
      rfl

theorem Chosen.of_construct (chosen : u.Chosen held n site c) (mixed : u.algorithm = .zeroOneCfa)
    (construct : site.kind = .construct) :
    ∃ f, n.1 = .function f ∧ c = .callString f site.pc := by
  cases chosen with
  | root root kind =>
      rw [construct] at kind
      cases kind
  | @call f call d o caller here kind finds =>
      refine ⟨f, caller, ?_⟩
      simp only [mixed, Algorithm.contextOf, construct, caller, true_or, if_true]
      rfl

/-- A call has a context of its own only behind `call` or `apply`, which its callee then holds. -/
theorem Chosen.of_call (chosen : u.Chosen held n site c) (mixed : u.algorithm = .zeroOneCfa)
    (plain : site.kind = .call) :
    c = .everywhere ∨ u.callsReceiver = true ∧ ∃ f call b, n.1 = .function f ∧
      c = .callString f site.pc ∧ u.callOf? n site.pc = some call ∧ held call.callee (.builtin b) ∧
      (b = .call ∨ b = .apply) := by
  cases chosen with
  | root root kind => exact .inl rfl
  | @call f call d o caller here kind finds =>
      cases finds with
      | direct found =>
          left
          simp [mixed, Algorithm.contextOf, plain, Dispatch.isReflective]
      | @receiver b d v o receives callee way receiver found =>
          refine .inr ⟨receives, f, call, b, caller, ?_, here, callee, ?_⟩
          · have reflective : d.isReflective = true := by
              cases b <;> cases way <;> rfl
            simp only [mixed, Algorithm.contextOf, reflective, caller, or_true, if_true]
            rfl
          · cases b <;> simp_all [Builtin.dispatch?]

end Chosen

theorem Follows.everywhere (follows : u.Follows (.node m)) (zero : u.algorithm = .zeroCfa) :
    m.2 = .everywhere := by
  rcases follows_node_iff.mp follows with rfl | ⟨n, site, edge⟩
  · rfl
  · cases method : m.1 with
    | function g => exact (u.grounded_follows.chosen edge method).of_zeroCfa zero
    | _ =>
        rcases follows_edge_iff.mp edge with ⟨-, -, e, -, rfl⟩ | ⟨-, call, -, -, d, o, -, runs⟩
        · rfl
        · rcases runs with ⟨g, -, rfl⟩ | ⟨b, -, -, -, rfl⟩
          · cases method
          · rfl

end Setup

namespace Analysis

variable {p : Program} {o : Options} {a : Analysis}

structure Calls (a : Analysis) (n : Node) (site : CallSite) (m : Node) : Prop where
  caller : a.graph.node? n.id = some n
  callee : a.graph.node? m.id = some m
  edge : ⟨n.id, site, m.id⟩ ∈ a.graph.edges

def NodesOf (a : Analysis) (g : FunctionId) : Set Node :=
  {m | a.graph.node? m.id = some m ∧ m.method = .function g}

/-- The places of functions from which a function is called, and `none` if the root calls it. -/
def CallersOf (a : Analysis) (g : FunctionId) : Set (Option (FunctionId × Nat)) :=
  {q | ∃ n site m, a.Calls n site m ∧ m.method = .function g ∧
    ((n.method = .fakeRoot ∧ q = none) ∨ ∃ f, n.method = .function f ∧ q = some (f, site.pc))}

/-- A call of a node may be one of its receiver: its callee may be the built-in `call` or
`apply`. -/
def MayCallReceiver (p : Program) (a : Analysis) (n : Node) (pc : Nat) : Prop :=
  ∃ f call b, n.body? p = some f ∧ f.callAt? pc = some call ∧ a.HeldBy n call.callee (.builtin b) ∧
    (b = .call ∨ b = .apply)

/-- A context is that of a call of a node. -/
def OwnContext (n : Node) (pc : Nat) (c : Context) : Prop :=
  ∃ f, n.method = .function f ∧ c = .callString f pc

/-- The contexts of the functions that are called name the calls, as the algorithm has it. -/
structure NamesCalls (p : Program) (o : Options) (a : Analysis) : Prop where
  everywhere : o.algorithm = .zeroCfa → ∀ n site m g, a.Calls n site m → m.method = .function g →
    m.context = .everywhere
  single : o.algorithm = .zeroCfa → ∀ n m, a.graph.node? n.id = some n →
    a.graph.node? m.id = some m → n.method = m.method → n = m
  own : o.algorithm = .oneCfa → ∀ n site m g, a.Calls n site m → m.method = .function g →
    (n.method = .fakeRoot ∧ m.context = .everywhere) ∨ OwnContext n site.pc m.context
  bijection : o.algorithm = .oneCfa → ∀ g,
    Set.BijOn (fun m => m.context.place?) (a.NodesOf g) (a.CallersOf g)
  construct : o.algorithm = .zeroOneCfa → ∀ n site m g, a.Calls n site m →
    m.method = .function g → site.kind = .construct → OwnContext n site.pc m.context
  call : o.algorithm = .zeroOneCfa → ∀ n site m g, a.Calls n site m → m.method = .function g →
    site.kind = .call → m.context = .everywhere ∨
      o.handleCallApply = true ∧ a.MayCallReceiver p n site.pc ∧ OwnContext n site.pc m.context

end Analysis

theorem CallGraph.node_unique {g : CallGraph} {n m : Node} (here : g.node? n.id = some n)
    (there : g.node? m.id = some m) (same : n.role = m.role) : n = m := by
  obtain ⟨first, -⟩ := node?_eq_some_iff.mp here
  obtain ⟨second, -⟩ := node?_eq_some_iff.mp there
  rw [same] at first
  rw [Numbering.value?_inj first second, there] at here
  exact (Option.some.inj here).symm

namespace Construction

variable {u : Setup} {c : Construction} {n m : Node} {site : CallSite} {g : FunctionId}

/-- The context of a function in an answer was chosen for each of the calls that run it, by what
the answer holds. -/
theorem Reached.chosen_finish (reached : Reached u c) (grounded : u.Grounded c.Knows)
    (rooted : c.graph.Rooted) (ended : Completion) (calls : (c.finish u ended).Calls n site m)
    (function : m.method = .function g) :
    u.Chosen ((c.finish u ended).HeldBy n) n.role site m.context := by
  have finished : (c.finish u ended).graph.Rooted := rooted.finish ended.isComplete
  have caller := (CallGraph.node?_eq_some_iff.mp calls.caller).1
  have callee := (CallGraph.node?_eq_some_iff.mp calls.callee).1
  have runs := (finished.wellFormed.mem_edges_iff _).mp calls.edge
  have held : (c.finish u ended).HeldBy n = fun v x => c.Knows (.holds (.var n.role v) x) :=
    funext fun v => funext fun x => propext (holds_finish_iff reached.valid ended)
  rcases reached.valid.links_finish ended ⟨_, _, caller, runs, callee⟩ with known | unknown
  · rw [held]
    exact grounded.chosen known function
  · rw [show m.method = .unknown from congrArg Prod.fst unknown] at function
    cases function

theorem Reached.everywhere_finish (reached : Reached u c) (ended : Completion)
    (zero : u.algorithm = .zeroCfa) (here : (c.finish u ended).graph.node? n.id = some n) :
    n.context = .everywhere := by
  have known := (CallGraph.node?_eq_some_iff.mp here).1
  rcases value?_finish reached.valid known with old | ⟨-, unknown, -⟩
  · exact (reached.sound _ (.node old)).everywhere zero
  · exact congrArg Prod.snd unknown

end Construction

namespace Analysis

variable {p : Program} {o : Options} {a : Analysis} {n m : Node} {g : FunctionId}

/-- Some call runs each node of a function. -/
theorem exists_calls (called : a.graph.Called) (member : m ∈ a.NodesOf g) :
    ∃ n site, a.Calls n site m := by
  obtain ⟨here, function⟩ := member
  have bound := CallGraph.lt_of_node? here
  -- the root runs no function, and all other nodes are called by an older one
  have some : m.id ≠ CallGraph.fakeRoot := by
    intro root
    rw [root, called.root] at here
    rw [← Option.some.inj here] at function
    cases function
  obtain ⟨e, edge, callee, older⟩ := called.called m.id some bound
  obtain ⟨r, caller⟩ := (Numbering.value?_isSome_iff _ e.caller).mpr (Nat.lt_trans older bound)
  refine ⟨⟨e.caller, r.1, r.2⟩, e.site, ?_, here, ?_⟩
  · exact CallGraph.node?_eq_some_iff.mpr ⟨caller, rfl⟩
  · rw [← callee]
    exact edge

/-- Where each context names a call that is there, nodes and calling places correspond. -/
theorem bijOn_callers (called : a.graph.Called) (own : ∀ n site m, a.Calls n site m →
      m.method = .function g →
      (n.method = .fakeRoot ∧ m.context = .everywhere) ∨ OwnContext n site.pc m.context) :
    Set.BijOn (fun m => m.context.place?) (a.NodesOf g) (a.CallersOf g) := by
  refine ⟨fun m member => ?_, fun n here m there same => ?_, ?_⟩
  · obtain ⟨n, site, calls⟩ := exists_calls called member
    refine ⟨n, site, m, calls, member.2, ?_⟩
    rcases own n site m calls member.2 with ⟨root, none⟩ | ⟨f, function, named⟩
    · exact .inl ⟨root, congrArg Context.place? none⟩
    · exact .inr ⟨f, function, congrArg Context.place? named⟩
  · have context := Context.place?_injective same
    exact CallGraph.node_unique here.1 there.1 (Prod.ext (here.2.trans there.2.symm) context)
  · rintro q ⟨n, site, m, calls, function, caller⟩
    refine ⟨m, ⟨calls.callee, function⟩, ?_⟩
    rcases own n site m calls function, caller with
      ⟨⟨root, none⟩ | ⟨f, code, named⟩, ⟨root', rfl⟩ | ⟨f', code', rfl⟩⟩
    · exact congrArg Context.place? none
    · rw [root] at code'
      cases code'
    · rw [root'] at code
      cases code
    · rw [code] at code'
      cases code'
      exact congrArg Context.place? named

end Analysis

/-- However an analysis ends, the contexts of the functions that are called name just the calls that
run them. -/
theorem contexts_name_calls {p : Program} {o : Options} {monitor : Nat → Option CancelReason}
    {a : Analysis} (run : analyze p o monitor = .ok a) : a.NamesCalls p o := by
  obtain ⟨-, -, answer⟩ := analyze_eq_ok_iff.mp run
  have start := Construction.reached_start (.ofOptions p o)
  have reached := (start.runWithin monitor (p.stepBound + 1)).1
  have grounded := start.grounded_runWithin monitor (p.stepBound + 1)
    (Construction.grounded_start (.ofOptions p o))
  have rooted := Construction.rooted_runWithin (.ofOptions p o) monitor (p.stepBound + 1)
  -- the choice is one by what the answer holds, so it does not matter how the analysis ended
  have chosen : ∀ n site m g, a.Calls n site m → m.method = .function g →
      (Setup.ofOptions p o).Chosen (a.HeldBy n) n.role site m.context := by
    subst answer
    exact fun n site m g calls function =>
      reached.chosen_finish grounded rooted _ calls function
  have called : a.graph.Called := answer ▸ reached.called_finish rooted _
  have own : o.algorithm = .oneCfa → ∀ n site m g, a.Calls n site m → m.method = .function g →
      (n.method = .fakeRoot ∧ m.context = .everywhere) ∨
        Analysis.OwnContext n site.pc m.context := by
    intro one n site m g calls function
    refine ((chosen n site m g calls function).of_oneCfa one).imp_left ?_
    exact fun root => ⟨congrArg Prod.fst root.1, root.2⟩
  refine ⟨fun zero n site m g calls function => ?_, fun zero n m here there same => ?_, own,
    fun one g => ?_, fun mixed n site m g calls function kind => ?_,
    fun mixed n site m g calls function kind => ?_⟩
  · exact (chosen n site m g calls function).of_zeroCfa zero
  · have everywhere : ∀ n : Node, a.graph.node? n.id = some n → n.context = .everywhere := by
      subst answer
      exact fun n here => reached.everywhere_finish _ zero here
    exact CallGraph.node_unique here there
      (Prod.ext same ((everywhere n here).trans (everywhere m there).symm))
  · exact Analysis.bijOn_callers called fun n site m calls function =>
      own one n site m g calls function
  · exact (chosen n site m g calls function).of_construct mixed kind
  · refine ((chosen n site m g calls function).of_call mixed kind).imp_right ?_
    rintro ⟨receives, f, call, b, method, context, here, held, builtin⟩
    obtain ⟨body, code, found⟩ := Option.bind_eq_some_iff.mp here
    exact ⟨receives, ⟨body, call, b, code, found, held, builtin⟩, f, method, context⟩

/-- A request to stop the analysis before its thirty-first step. -/
def stopAfterThirty (done : Nat) : Option CancelReason :=
  if done < 30 then none else some .requested

/-- In the small program under the mixed algorithm, a node that was found behind `call` is for this
one call, although it is no construction. -/
theorem contexts_name_calls_tour : ∃ a,
    analyze .tour { Options.thorough with algorithm := .zeroOneCfa } stopAfterThirty = .ok a ∧
      a.completion = .cut (.canceled .requested) ∧
      a.Calls ⟨1, .function 0, .everywhere⟩ ⟨3, .call⟩ ⟨3, .function 1, .callString 0 3⟩ ∧
      a.NamesCalls .tour { Options.thorough with algorithm := .zeroOneCfa } := by
  have run := analyze_eq (p := .tour) (o := { Options.thorough with algorithm := .zeroOneCfa })
    (by rfl) (by rfl) stopAfterThirty
  refine ⟨_, run, ?_, ⟨?_, ?_, ?_⟩, contexts_name_calls run⟩
  all_goals decide +kernel

end CallFlow
