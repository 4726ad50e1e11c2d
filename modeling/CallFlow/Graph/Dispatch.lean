import CallFlow.Flow.Solver

/-! What calling an object means. The built-in `call` and `apply` run the receiver of the call, if
such calls are understood and the call is not understood that way already, and else the built-in
code. -/

namespace CallFlow

inductive CalleeKind where
  | function (f : FunctionId)
  | builtin (b : Builtin)
  /-- The receiver is run. -/
  | reflective (d : Dispatch)
deriving DecidableEq, Repr

inductive DispatchTarget where
  /-- Run a function that was found by a function object. -/
  | function (f : FunctionId) (object : Nat)
  | builtin (b : Builtin)
  | reflective (d : Dispatch)
deriving DecidableEq, Repr

/-- What calling an object means for a call that finds its functions in a certain way. -/
def AbstractObject.classify (callsReceiver : Bool) (dispatch : Dispatch) (o : AbstractObject) :
    Option CalleeKind :=
  match o.function?, o.builtin? with
  | some f, _ => some (.function f)
  | none, some .call =>
    some (if callsReceiver && dispatch = .direct then .reflective .call else .builtin .call)
  | none, some .apply =>
    some (if callsReceiver && dispatch = .direct then .reflective .apply else .builtin .apply)
  | none, _ => none

def CalleeKind.target (object : Nat) : CalleeKind → DispatchTarget
  | function f => .function f object
  | builtin b => .builtin b
  | reflective d => .reflective d

def Solver.dispatchTargets (s : Solver) (callsReceiver : Bool) (dispatch : Dispatch)
    (callees : IdSet) : List DispatchTarget :=
  callees.toList.filterMap fun id =>
    ((s.objects.value? id).bind (·.classify callsReceiver dispatch)).map (·.target id)

end CallFlow
