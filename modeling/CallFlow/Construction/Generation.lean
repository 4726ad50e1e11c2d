import CallFlow.Flow.Solver
import CallFlow.Heap.Policy

/-! Facts and constraints of instructions and calls, over the locations of the node that runs the
code. A call adds more for every node that it is found to run. -/

namespace CallFlow

/-- An instruction as part of a node. -/
structure Spot where
  node : Nat
  context : Context
  function : FunctionId
  pc : Nat
deriving DecidableEq, Repr

namespace Solver

def setField (object : Nat) (p : Property) (value : Nat) (s : Solver) : Solver :=
  let slot := s.field object p
  (slot.2.addFact slot.1 value).2

def setProperty (object : Nat) (name : String) (value : Nat) (s : Solver) : Solver :=
  let p := s.property name
  p.2.setField object p.1 value

def inheritFrom (b : Builtin) (object : Nat) (s : Solver) : Solver :=
  let base := s.object (.builtin b)
  base.2.setField object .proto base.1

def setVar (node : Nat) (dst : VarId) (value : Nat) (s : Solver) : Solver :=
  let slot := s.var node dst
  (slot.2.addFact slot.1 value).2

def copyVar (node : Nat) (dst : VarId) (s : Solver) (src : VarId) : Solver :=
  let a := s.var node src
  let b := a.2.var node dst
  (b.2.addEdge a.1 b.1).2

/-- A built-in function as a property of the object that functions inherit from. -/
def seedMethod (functionPrototype : Nat) (s : Solver) (m : String × Builtin) : Solver :=
  let object := s.object (.builtin m.2)
  (object.2.setProperty functionPrototype m.1 object.1).setField object.1 .proto functionPrototype

def seed (s : Solver) : Solver :=
  let objects := s.object (.builtin .objectPrototype)
  let functions := objects.2.object (.builtin .functionPrototype)
  [("call", Builtin.call), ("apply", Builtin.apply)].foldl (seedMethod functions.1)
    (functions.2.setField functions.1 .proto objects.1)

def addAllocation (h : HeapPolicy) (spot : Spot) (kind : AllocationKind) (dst : VarId)
    (s : Solver) : Solver :=
  let object := s.object (h.allocation ⟨spot.function, spot.pc, kind⟩ spot.context)
  (object.2.setVar spot.node dst object.1).inheritFrom .objectPrototype object.1

/-- A fresh function object with its prototype object, which are properties of each other. -/
def addClosure (h : HeapPolicy) (spot : Spot) (dst : VarId) (f : FunctionId) (s : Solver) :
    Solver :=
  let closure := s.object (h.allocation ⟨spot.function, spot.pc, .function f⟩ spot.context)
  let prototype :=
    closure.2.object (h.allocation ⟨spot.function, spot.pc, .prototype f⟩ spot.context)
  let s := prototype.2.setVar spot.node dst closure.1
  let s := s.setProperty closure.1 "prototype" prototype.1
  let s := s.setProperty prototype.1 "constructor" closure.1
  (s.inheritFrom .functionPrototype closure.1).inheritFrom .objectPrototype prototype.1

def addConstant (h : HeapPolicy) (node : Nat) (dst : VarId) (value : Literal) (s : Solver) :
    Solver :=
  match h.constant? value with
  | none => s
  | some o =>
    let object := s.object o
    object.2.setVar node dst object.1

def addLoad (node : Nat) (dst object : VarId) (name : String) (s : Solver) : Solver :=
  let p := s.property name
  let base := p.2.var node object
  let dst := base.2.var node dst
  (dst.2.addConstraint base.1 (.load p.1 dst.1)).2

def addStore (node : Nat) (object : VarId) (name : String) (value : VarId) (s : Solver) :
    Solver :=
  let p := s.property name
  let base := p.2.var node object
  let src := base.2.var node value
  (src.2.addConstraint base.1 (.store p.1 src.1)).2

/-- Attaches a constraint to two locations, one after the other. -/
def addTwice (object key : Nat) (c : Constraint) (s : Solver) : Solver :=
  ((s.addConstraint object c).2.addConstraint key c).2

def addDynamicLoad (node : Nat) (dst object key : VarId) (s : Solver) : Solver :=
  let object := s.var node object
  let key := object.2.var node key
  let dst := key.2.var node dst
  dst.2.addTwice object.1 key.1 (.dynamicLoad object.1 key.1 dst.1)

def addDynamicStore (node : Nat) (object key value : VarId) (s : Solver) : Solver :=
  let object := s.var node object
  let key := object.2.var node key
  let src := key.2.var node value
  src.2.addTwice object.1 key.1 (.dynamicStore object.1 key.1 src.1)

/-- A read of a location outside of the node. -/
def readShared (node : Nat) (dst : VarId) (shared : Nat × Solver) : Solver :=
  let dst := shared.2.var node dst
  (dst.2.addEdge shared.1 dst.1).2

def writeShared (node : Nat) (value : VarId) (shared : Nat × Solver) : Solver :=
  let src := shared.2.var node value
  (src.2.addEdge src.1 shared.1).2

/-- A call: its callee waits for functions to run. -/
def addCall (node pc : Nat) (callee : VarId) (s : Solver) : Solver :=
  let callee := s.var node callee
  (callee.2.addConstraint callee.1 (.invoke ⟨node, pc, .direct⟩)).2

def addReturn (node : Nat) (value : VarId) (s : Solver) : Solver :=
  let src := s.var node value
  let result := src.2.result node
  (result.2.addEdge src.1 result.1).2

def addInstruction (h : HeapPolicy) (spot : Spot) (s : Solver) : Instruction → Solver
  | .newObject dst => s.addAllocation h spot .object dst
  | .newArray dst => s.addAllocation h spot .array dst
  | .closure dst f => s.addClosure h spot dst f
  | .constant dst value => s.addConstant h spot.node dst value
  | .copy dst src => s.copyVar spot.node dst src
  | .phi dst sources => sources.foldl (copyVar spot.node dst) s
  | .getProperty dst object name => s.addLoad spot.node dst object name
  | .putProperty object name value => s.addStore spot.node object name value
  | .getDynamic dst object key => s.addDynamicLoad spot.node dst object key
  | .putDynamic object key value => s.addDynamicStore spot.node object key value
  | .globalRead dst name => readShared spot.node dst (s.global name)
  | .globalWrite name value => writeShared spot.node value (s.global name)
  | .lexicalRead dst name definer => readShared spot.node dst (s.lexical definer name)
  | .lexicalWrite name definer value => writeShared spot.node value (s.lexical definer name)
  | .invoke call => s.addCall spot.node spot.pc call.callee
  | .ret (some value) => s.addReturn spot.node value
  | .ret none => s

def passVar (node : Nat) (dst : Nat) (s : Solver) (src : VarId) : Solver :=
  let src := s.var node src
  (src.2.addEdge src.1 dst).2

def passArgument (caller callee : Nat) (s : Solver) (p : VarId × VarId) : Solver :=
  let arg := s.var caller p.1
  let param := arg.2.var callee p.2
  (param.2.addEdge arg.1 param.1).2

def passElements (array callee : Nat) (s : Solver) (param : VarId) : Solver :=
  let dst := s.var callee param
  (dst.2.addConstraint array (.load .element dst.1)).2

/-- The object that a construction creates: the receiver and the result of the call, inheriting
from what the function's property `prototype` holds. -/
def bindConstruct (h : HeapPolicy) (spot : Spot) (function receiver : Nat) (dst : Option VarId)
    (s : Solver) : Solver :=
  let object := s.object (h.allocation ⟨spot.function, spot.pc, .object⟩ spot.context)
  let s := (object.2.addFact receiver object.1).2
  let name := s.property "prototype"
  let prototype := name.2.field function name.1
  let link := prototype.2.field object.1 .proto
  let s := (link.2.addEdge prototype.1 link.1).2
  match dst with
  | none => s
  | some dst => s.setVar spot.node dst object.1

def bindReceiver (h : HeapPolicy) (spot : Spot) (b : Binding) (call : Invocation)
    (receiver : Nat) (s : Solver) : Solver :=
  match b.dispatch, call.kind with
  | .direct, .construct => s.bindConstruct h spot b.function receiver call.dst
  | .direct, .call => call.receiver.elim s (passVar b.caller receiver s)
  | _, _ => call.args.head?.elim s (passVar b.caller receiver s)

/-- The arguments that a call passes. Behind `call` the first one is the receiver; behind `apply`
the second one holds them all. -/
def bindArguments (b : Binding) (call : Invocation) (params : List VarId) (s : Solver) : Solver :=
  match b.dispatch with
  | .direct => (call.args.zip params).foldl (passArgument b.caller b.callee) s
  | .call => ((call.args.drop 1).zip params).foldl (passArgument b.caller b.callee) s
  | .apply =>
    match call.args[1]? with
    | none => s
    | some array =>
      let array := s.var b.caller array
      params.foldl (passElements array.1 b.callee) array.2

def bindResult (b : Binding) (call : Invocation) (s : Solver) : Solver :=
  match call.dst with
  | none => s
  | some dst =>
    let result := s.result b.callee
    let dst := result.2.var b.caller dst
    (dst.2.addEdge result.1 dst.1).2

def bind (h : HeapPolicy) (spot : Spot) (b : Binding) (call : Invocation) (callee : FunctionBody)
    (s : Solver) : Solver :=
  let receiver := s.var b.callee callee.thisVar
  ((receiver.2.bindReceiver h spot b call receiver.1).bindArguments b call callee.params).bindResult
    b call

end Solver

end CallFlow
