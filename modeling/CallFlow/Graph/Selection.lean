import CallFlow.Graph.Method
import CallFlow.Flow.Constraint

/-! The choice of contexts. When a call reaches a function, the algorithm decides whether the call
has a context of its own; a call of the root, which has no place in a function, never has one. -/

namespace CallFlow

structure ContextRequest where
  caller : Node
  site : CallSite
  dispatch : Dispatch
  callee : FunctionId
  /-- The objects that the receiver may be. -/
  receivers : List Nat
deriving DecidableEq, Repr

def ContextRequest.ownContext (r : ContextRequest) : Context :=
  match r.caller.method.function? with
  | some caller => .callString caller r.site.pc
  | none => .everywhere

namespace Algorithm

def select (a : Algorithm) (r : ContextRequest) : Context :=
  match a with
  | .zeroCfa => .everywhere
  | .zeroOneCfa =>
    if r.site.kind = .construct ∨ r.dispatch.isReflective then r.ownContext else .everywhere
  | .oneCfa => r.ownContext

def shortName : Algorithm → String
  | .zeroCfa => "0-CFA"
  | .zeroOneCfa => "0-1-CFA"
  | .oneCfa => "1-CFA"

end Algorithm

end CallFlow
