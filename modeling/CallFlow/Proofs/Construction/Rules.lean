import CallFlow.Construction.Basic
import CallFlow.Proofs.Flow.Rules

/-! The rules of an analysis, said by name: a node is a method in a context, and no number of an
analysis occurs. What follows by them is what the program means, whatever the order of the work. -/

namespace CallFlow

/-- What a node of a call graph stands for. -/
abbrev Role := Method × Context

def Role.root : Role := (.fakeRoot, .everywhere)

namespace Finding

/-- What it takes that one place holds all that another one holds. -/
def linked (p q : Place Role) : List (Finding Role) := [.place p, .place q, .flows p q]

/-- What it takes that a place holds an object. -/
def stored (p : Place Role) (o : AbstractObject) : List (Finding Role) := [.place p, .holds p o]

/-- What it takes that the property of a name of an object holds another object. -/
def named (o : AbstractObject) (name : String) (v : AbstractObject) : List (Finding Role) :=
  (Slot.ofName name).mentions ++ stored (.field o (.ofName name)) v

/-- What it takes that an object inherits from a built-in one. -/
def inherits (b : Builtin) (o : AbstractObject) : List (Finding Role) :=
  .object (.builtin b) :: stored (.field o .proto) (.builtin b)

def method (m : String × Builtin) : List (Finding Role) :=
  .object (.builtin m.2) :: named (.builtin .functionPrototype) m.1 (.builtin m.2) ++
    stored (.field (.builtin m.2) .proto) (.builtin .functionPrototype)

def builtins : List (Finding Role) :=
  [.object (.builtin .objectPrototype), .object (.builtin .functionPrototype)] ++
    stored (.field (.builtin .functionPrototype) .proto) (.builtin .objectPrototype) ++
    [("call", Builtin.call), ("apply", Builtin.apply)].flatMap method

/-- What it takes that a call runs a node. -/
def run (n : Role) (site : CallSite) (m : Role) : List (Finding Role) :=
  [.node m, .site n site, .edge n site m]

def entry (e : FunctionId × Nat) : List (Finding Role) :=
  run .root ⟨e.2, .call⟩ (.function e.1, .everywhere)

end Finding

/-- What an instruction at a place of a function asks for when a node runs it. -/
def Instruction.findings (h : HeapPolicy) (n : Role) (f : FunctionId) (pc : Nat) :
    Instruction → List (Finding Role)
  | newObject dst =>
    let o := h.allocation ⟨f, pc, .object⟩ n.2
    .object o :: Finding.stored (.var n dst) o ++ Finding.inherits .objectPrototype o
  | newArray dst =>
    let o := h.allocation ⟨f, pc, .array⟩ n.2
    .object o :: Finding.stored (.var n dst) o ++ Finding.inherits .objectPrototype o
  | closure dst g =>
    let o := h.allocation ⟨f, pc, .function g⟩ n.2
    let p := h.allocation ⟨f, pc, .prototype g⟩ n.2
    [.object o, .object p] ++ Finding.stored (.var n dst) o ++ Finding.named o "prototype" p ++
      Finding.named p "constructor" o ++ Finding.inherits .functionPrototype o ++
      Finding.inherits .objectPrototype p
  | constant dst value =>
    (h.constant? value).elim [] fun o => .object o :: Finding.stored (.var n dst) o
  | copy dst src => Finding.linked (.var n src) (.var n dst)
  | phi dst sources => sources.flatMap fun src => Finding.linked (.var n src) (.var n dst)
  | getProperty dst object name =>
    (Slot.ofName name).mentions ++ [.place (.var n object), .place (.var n dst),
      .attached (.var n object) (.load (.ofName name) (.var n dst))]
  | putProperty object name value =>
    (Slot.ofName name).mentions ++ [.place (.var n object), .place (.var n value),
      .attached (.var n object) (.store (.ofName name) (.var n value))]
  | getDynamic dst object key =>
    let d := Demand.dynamicLoad (.var n object) (.var n key) (.var n dst)
    [.place (.var n object), .place (.var n key), .place (.var n dst),
      .attached (.var n object) d, .attached (.var n key) d]
  | putDynamic object key value =>
    let d := Demand.dynamicStore (.var n object) (.var n key) (.var n value)
    [.place (.var n object), .place (.var n key), .place (.var n value),
      .attached (.var n object) d, .attached (.var n key) d]
  | globalRead dst name => .name name :: Finding.linked (.global name) (.var n dst)
  | globalWrite name value => .name name :: Finding.linked (.var n value) (.global name)
  | lexicalRead dst name definer =>
    .name name :: Finding.linked (.lexical definer name) (.var n dst)
  | lexicalWrite name definer value =>
    .name name :: Finding.linked (.var n value) (.lexical definer name)
  | invoke call =>
    [.site n ⟨pc, call.kind⟩, .place (.var n call.callee),
      .attached (.var n call.callee) (.invoke n pc .direct)]
  | ret (some value) => Finding.linked (.var n value) (.result n)
  | ret none => []

/-- A call of a node that runs another one, found by a function object. -/
@[ext]
structure Encounter where
  caller : Role
  pc : Nat
  callee : Role
  function : AbstractObject
  dispatch : Dispatch

namespace Encounter

/-- What it takes that a place holds what a variable of the caller holds. -/
def pass (e : Encounter) (q : Place Role) (v : VarId) : List (Finding Role) :=
  [.place (.var e.caller v), .flows (.var e.caller v) q]

def constructFindings (h : HeapPolicy) (e : Encounter) (f : FunctionId) (receiver : Place Role)
    (dst : Option VarId) : List (Finding Role) :=
  let o := h.allocation ⟨f, e.pc, .object⟩ e.caller.2
  let p := Place.field e.function (.ofName "prototype")
  [.object o, .holds receiver o] ++ (Slot.ofName "prototype").mentions ++
    Finding.linked p (.field o .proto) ++
    dst.elim [] fun dst => Finding.stored (.var e.caller dst) o

def receiverFindings (h : HeapPolicy) (e : Encounter) (f : FunctionId) (call : Invocation)
    (receiver : Place Role) : List (Finding Role) :=
  match e.dispatch, call.kind with
  | .direct, .construct => e.constructFindings h f receiver call.dst
  | .direct, .call => call.receiver.elim [] (e.pass receiver)
  | _, _ => call.args.head?.elim [] (e.pass receiver)

def argumentFindings (e : Encounter) (p : VarId × VarId) : List (Finding Role) :=
  Finding.linked (.var e.caller p.1) (.var e.callee p.2)

def elementsFindings (e : Encounter) (array param : VarId) : List (Finding Role) :=
  [.place (.var e.callee param),
    .attached (.var e.caller array) (.load .element (.var e.callee param))]

def argumentsFindings (e : Encounter) (call : Invocation) (params : List VarId) :
    List (Finding Role) :=
  match e.dispatch with
  | .direct => (call.args.zip params).flatMap e.argumentFindings
  | .call => ((call.args.drop 1).zip params).flatMap e.argumentFindings
  | .apply => call.args[1]?.elim [] fun array =>
      .place (.var e.caller array) :: params.flatMap (e.elementsFindings array)

def resultFindings (e : Encounter) (call : Invocation) : List (Finding Role) :=
  call.dst.elim [] fun dst => Finding.linked (.result e.callee) (.var e.caller dst)

/-- What connecting a call of function `f` with a node that it runs asks for. -/
def findings (h : HeapPolicy) (e : Encounter) (f : FunctionId) (call : Invocation)
    (callee : FunctionBody) : List (Finding Role) :=
  let receiver := Place.var e.callee callee.thisVar
  .place receiver :: e.receiverFindings h f call receiver ++ e.argumentsFindings call callee.params
    ++ e.resultFindings call

end Encounter

/-- The context in which a call of a method reaches a function. -/
def Algorithm.contextOf (a : Algorithm) (caller : Method) (site : CallSite) (d : Dispatch) :
    Context :=
  let own := match caller.function? with
    | some f => Context.callString f site.pc
    | none => .everywhere
  match a with
  | .zeroCfa => .everywhere
  | .zeroOneCfa => if site.kind = .construct ∨ d.isReflective then own else .everywhere
  | .oneCfa => own

theorem Algorithm.select_eq (a : Algorithm) (r : ContextRequest) :
    a.select r = a.contextOf r.caller.method r.site r.dispatch := by
  cases a <;> rfl

namespace Setup

variable (u : Setup)

def bodyOf? (n : Role) : Option FunctionBody := n.1.function?.bind u.program.function?

def callOf? (n : Role) (pc : Nat) : Option Invocation := (u.bodyOf? n).bind (·.callAt? pc)

def visitFindings (n : Role) : List (Finding Role) :=
  (u.bodyOf? n).elim [] fun f =>
    f.instructions.zipIdx.flatMap fun (i, pc) => i.findings u.heap n f.id pc

/-- What a call asks for when its callee, or the receiver that is run, may be an object. -/
def dispatchFindings (n : Role) (pc : Nat) (d : Dispatch) (o : AbstractObject) :
    List (Finding Role) :=
  match u.callOf? n pc with
  | none => []
  | some call =>
    let site : CallSite := ⟨pc, call.kind⟩
    match o.classify u.callsReceiver d with
    | none => []
    | some (.function g) =>
      let m : Role := (.function g, u.algorithm.contextOf n.1 site d)
      .binding n pc m o d :: Finding.run n site m
    | some (.builtin b) => Finding.run n site (.builtin b, .everywhere)
    | some (.reflective d) =>
      call.receiver.elim [] fun v =>
        [.place (.var n v), .attached (.var n v) (.invoke n pc d)]

def bindFindings (e : Encounter) : List (Finding Role) :=
  match u.bodyOf? e.caller, u.callOf? e.caller e.pc, u.bodyOf? e.callee with
  | some f, some call, some callee => e.findings u.heap f.id call callee
  | _, _, _ => []

/-- How findings of an analysis follow from others. -/
inductive Rule : List (Finding Role) → Finding Role → Prop
  | root : Rule [] (.node .root)
  | builtins {j} : j ∈ Finding.builtins → Rule [] j
  | entry {e j} : e ∈ u.program.entryPoints.zipIdx → j ∈ Finding.entry e → Rule [] j
  | flow {ps j} : FlowRule u.reflection ps j → Rule ps j
  | visit {n j} : j ∈ u.visitFindings n → Rule [.node n] j
  | dispatch {p n pc d o j} : j ∈ u.dispatchFindings n pc d o →
      Rule [.attached p (.invoke n pc d), .holds p o] j
  | bind {n pc m o d j} : j ∈ u.bindFindings ⟨n, pc, m, o, d⟩ → Rule [.binding n pc m o d] j

/-- What the program means under the choices of the setup. -/
def Follows (j : Finding Role) : Prop := Derivable u.Rule j

end Setup

end CallFlow
