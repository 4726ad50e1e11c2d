import CallFlow.Construction.Generation
import CallFlow.Construction.Outcome
import CallFlow.Graph.Selection
import CallFlow.Graph.Dispatch
import CallFlow.Program.WellFormed

/-! The construction of a call graph. Visits of nodes, dispatches of calls and bindings wait on the
solver's worklist, and one step works off one item. A node beyond the ceiling is not created, and
the construction ends before its next step. -/

namespace CallFlow

/-- What a construction is about, and the choices that it makes. -/
structure Setup where
  program : Program
  reflection : Reflection
  callsReceiver : Bool
  maxNodes : Option UInt64
  algorithm : Algorithm
  heap : HeapPolicy
deriving DecidableEq, Repr

def Setup.ofOptions (p : Program) (o : Options) : Setup :=
  { program := p
    reflection := o.reflection
    callsReceiver := o.handleCallApply
    maxNodes := o.maxNodes
    algorithm := o.algorithm
    heap := .ofOptions o }

structure Construction where
  solver : Solver
  graph : CallGraph := .new
  /-- The bindings that were put on the worklist so far. -/
  bindings : KeySet Binding := .empty
  /-- Whether a node was refused. -/
  ceilingHit : Bool := false
  iterations : Nat := 0
  visited : Nat := 0
  /-- The numbers of instructions of the visited nodes, the last one first. -/
  worked : List Nat := []
deriving DecidableEq

namespace Construction

def seeded (setup : Setup) : Construction := { solver := (Solver.new setup.reflection).seed }

def push (c : Construction) (item : WorkItem) : Construction :=
  { c with solver := c.solver.push item }

def isFull (setup : Setup) (c : Construction) : Bool :=
  setup.maxNodes.any fun limit => decide (limit.toNat ≤ c.graph.nodeCount)

/-- The node for a method in a context. A node that is missing is created, and visited later if it
runs a function, unless no more may be created. -/
def nodeFor (setup : Setup) (c : Construction) (m : Method) (ctx : Context) :
    Option Nat × Construction :=
  match c.graph.find? m ctx with
  | some id => (some id, c)
  | none =>
    if c.isFull setup then (none, { c with ceilingHit := true })
    else
      let added := c.graph.addNode m ctx
      let c := { c with graph := added.2 }
      (some added.1.1, if m.function?.isSome then c.push (.visit added.1.1) else c)

def connect (setup : Setup) (c : Construction) (caller : Nat) (site : CallSite) (m : Method)
    (ctx : Context) : Option Nat × Construction :=
  let callee := c.nodeFor setup m ctx
  match callee.1 with
  | none => (none, callee.2)
  | some id =>
    (some id, { callee.2 with graph := (callee.2.graph.addEdge caller site id).2 })

def addEntry (setup : Setup) (c : Construction) (e : FunctionId × Nat) : Construction :=
  let site : CallSite := ⟨e.2, .call⟩
  let c := { c with graph := c.graph.addSite CallGraph.fakeRoot site }
  (c.connect setup CallGraph.fakeRoot site (.function e.1) .everywhere).2

def start (setup : Setup) : Construction :=
  setup.program.entryPoints.zipIdx.foldl (addEntry setup) (seeded setup)

def body? (setup : Setup) (c : Construction) (id : Nat) : Option FunctionBody :=
  ((c.graph.node? id).bind (·.method.function?)).bind setup.program.function?

def call? (setup : Setup) (c : Construction) (id pc : Nat) : Option Invocation :=
  (c.body? setup id).bind (·.callAt? pc)

def addInstruction (setup : Setup) (n : Node) (f : FunctionBody) (c : Construction)
    (i : Instruction × Nat) : Construction :=
  let graph := match i.1.call? with
    | some call => c.graph.addSite n.id ⟨i.2, call.kind⟩
    | none => c.graph
  { c with
    graph
    solver := c.solver.addInstruction setup.heap ⟨n.id, n.context, f.id, i.2⟩ i.1 }

def visit (setup : Setup) (c : Construction) (id : Nat) : Construction :=
  match c.graph.node? id, c.body? setup id with
  | some n, some f =>
    f.instructions.zipIdx.foldl (addInstruction setup n f)
      { c with visited := c.visited + 1, worked := f.instructions.length :: c.worked }
  | _, _ => c

def receiverVar? (dispatch : Dispatch) (call : Invocation) : Option VarId :=
  match dispatch with
  | .direct => call.receiver
  | .call | .apply => call.args.head?

def objectsOfVar (c : Construction) (id : Nat) (v : VarId) : List Nat :=
  match c.solver.locations.find? (.var id v) with
  | some k => (c.solver.facts k).toList
  | none => []

/-- Notes that a call runs a node, and puts the binding on the worklist if it is new. -/
def addBinding (c : Construction) (b : Binding) : Construction :=
  if c.bindings.contains b then c
  else { c with bindings := c.bindings.insert b }.push (.target b)

/-- Lets a call run a function, in the context that the algorithm chooses. -/
def dispatchFunction (setup : Setup) (call : PendingCall) (code : Invocation) (f : FunctionId)
    (object : Nat) (c : Construction) : Construction :=
  match c.graph.node? call.caller with
  | none => c
  | some caller =>
    let site : CallSite := ⟨call.pc, code.kind⟩
    let receivers := match receiverVar? call.dispatch code with
      | some v => c.objectsOfVar call.caller v
      | none => []
    let ctx := setup.algorithm.select ⟨caller, site, call.dispatch, f, receivers⟩
    let callee := c.connect setup call.caller site (.function f) ctx
    match callee.1 with
    | none => callee.2
    | some id => callee.2.addBinding ⟨call.caller, call.pc, id, object, call.dispatch⟩

def dispatchReceiver (call : PendingCall) (code : Invocation) (d : Dispatch) (c : Construction) :
    Construction :=
  match code.receiver with
  | none => c
  | some v =>
    let receiver := c.solver.var call.caller v
    { c with
      solver := (receiver.2.addConstraint receiver.1 (.invoke { call with dispatch := d })).2 }

def dispatchTarget (setup : Setup) (call : PendingCall) (code : Invocation) (c : Construction) :
    DispatchTarget → Construction
  | .function f object => c.dispatchFunction setup call code f object
  | .builtin b =>
    (c.connect setup call.caller ⟨call.pc, code.kind⟩ (.builtin b) .everywhere).2
  | .reflective d => c.dispatchReceiver call code d

def dispatch (setup : Setup) (c : Construction) (found : PendingCall × IdSet) : Construction :=
  match c.call? setup found.1.caller found.1.pc with
  | none => c
  | some code =>
    (c.solver.dispatchTargets setup.callsReceiver found.1.dispatch found.2).foldl
      (dispatchTarget setup found.1 code) c

/-- Passes on what a location gained, then dispatches the calls whose callee it is. -/
def propagate (setup : Setup) (c : Construction) (k : Nat) : Construction :=
  let passed := c.solver.propagate k
  passed.1.foldl (dispatch setup) { c with solver := passed.2 }

def bind (setup : Setup) (c : Construction) (b : Binding) : Construction :=
  match c.graph.node? b.caller, c.body? setup b.caller, c.call? setup b.caller b.pc,
      c.body? setup b.callee with
  | some caller, some f, some call, some callee =>
    { c with
      solver := c.solver.bind setup.heap ⟨b.caller, caller.context, f.id, b.pc⟩ b call callee }
  | _, _, _, _ => c

def process (setup : Setup) (c : Construction) : WorkItem → Construction
  | .propagate k => c.propagate setup k
  | .visit id => c.visit setup id
  | .target b => c.bind setup b

/-- Goes one step, if there is work and `answer`, which is asked for only then, does not stop the
construction. Answers how the construction ended, if it did, and what it is by then. -/
def advance (setup : Setup) (answer : Option CancelReason) (c : Construction) :
    Option Completion × Construction :=
  if c.ceilingHit then (some (.cut (.nodeBudget (setup.maxNodes.getD 0))), c)
  else
    match c.solver.next? with
    | none => (some .complete, c)
    | some (item, solver) =>
      match answer with
      | some why => (some (.cut (.canceled why)), c)
      | none => (none, { c with solver, iterations := c.iterations + 1 }.process setup item)

/-- Goes on until there is no work, `fuel` steps at most. The monitor is asked before each step and
knows how many there were. -/
def runWithin (setup : Setup) (monitor : Nat → Option CancelReason) (fuel : Nat)
    (c : Construction) : Completion × Construction :=
  match fuel with
  | 0 => (.cut .stepLimit, c)
  | fuel + 1 =>
    match c.advance setup (monitor c.iterations) with
    | (some completion, c) => (completion, c)
    | (none, c) => c.runWithin setup monitor fuel

end Construction

/-- A number above all that the program counts. -/
def Program.weight (p : Program) : Nat :=
  p.size + p.entryPoints.length + sumOver (fun f =>
    f.params.length + sumOver (fun i => 1 + i.uses.length) f.instructions) p.functions + 16

/-- More steps than any well-formed program needs: nodes, objects, locations, facts, constraints and
bindings all stay below small powers of the program's weight. -/
def Program.stepBound (p : Program) : Nat := p.weight.pow 32

def Construction.finish (setup : Setup) (completion : Completion) (c : Construction) : Analysis :=
  { graph := c.graph.finish completion.isComplete
    solution := c.solver.solution
    completion
    counters :=
      { iterations := c.iterations
        visitedNodes := c.visited
        locations := c.solver.locations.size
        objects := c.solver.objects.size
        facts := c.solver.counters.facts
        edges := c.solver.counters.edges
        constraints := c.solver.counters.constraints }
    progress := .begin "call graph construction" setup.program.instructionCount
      :: c.worked.reverse.map .worked ++ [.done] }

def Setup.run (setup : Setup) (monitor : Nat → Option CancelReason) : Analysis :=
  let ended :=
    (Construction.start setup).runWithin setup monitor (setup.program.stepBound + 1)
  ended.2.finish setup ended.1

def checkAnalysis (p : Program) (o : Options) : Except Failure Unit :=
  match o.validate with
  | .error why => .error (.options why)
  | .ok () =>
    match p.validate with
    | .error defect => .error (.program defect)
    | .ok () => .ok ()

def analyze (p : Program) (o : Options) (monitor : Nat → Option CancelReason) :
    Except Failure Analysis :=
  match checkAnalysis p o with
  | .error why => .error why
  | .ok () => .ok ((Setup.ofOptions p o).run monitor)

end CallFlow
