import CallFlow.Heap.Object

/-! What a node of the call graph runs, and where it calls. -/

namespace CallFlow

inductive Method where
  /-- The root, which calls the entry points. -/
  | fakeRoot
  | function (f : FunctionId)
  | builtin (b : Builtin)
  /-- Whatever the calls run for which nothing was found. -/
  | unknown
deriving DecidableEq, Repr, Ord

instance : Placed Method where
  place
    | .fakeRoot => 0
    | .function f => Placed.ofNats [1, f.toNat]
    | .builtin b => Placed.ofNats [2, Placed.place b]
    | .unknown => 3

namespace Method

def function? : Method → Option FunctionId
  | function f => some f
  | _ => none

/-- Whether no code of the program or of a built-in object is run. -/
def isSynthetic : Method → Bool
  | fakeRoot | unknown => true
  | function _ | builtin _ => false

def text (p : Program) : Method → String
  | fakeRoot => "synthetic < JavaScriptLoader, LFakeRoot, fakeRootMethod()V >"
  | unknown => "synthetic < JavaScriptLoader, LUnknownTarget, unknown()V >"
  | builtin b => "<Code body of function " ++ b.name ++ ">"
  | function f =>
    match p.function? f with
    | some body => body.text
    | none => "<Code body of function f" ++ toString f ++ ">"

/-- The name of a built-in object's code without the letter in front. -/
def plainName (b : Builtin) : String :=
  match b.name.toList with
  | 'L' :: rest => String.ofList rest
  | _ => b.name

def signature (p : Program) : Method → String
  | fakeRoot => "FakeRoot.fakeRootMethod()V"
  | unknown => "UnknownTarget.unknown()V"
  | builtin b => plainName b ++ signatureTail
  | function f =>
    match p.function? f with
    | some body => body.signature
    | none => "f" ++ toString f ++ signatureTail

end Method

structure CallSite where
  pc : Nat
  kind : CallKind
deriving DecidableEq, Repr, Ord

def CallSite.text (s : CallSite) : String :=
  match s.kind with
  | .call => "JSCall@" ++ toString s.pc
  | .construct => "JSConstruct@" ++ toString s.pc

structure Node where
  id : Nat
  method : Method
  context : Context
deriving DecidableEq, Repr

end CallFlow
