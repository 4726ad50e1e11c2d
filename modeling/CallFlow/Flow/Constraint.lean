import CallFlow.Heap.Location

/-! Constraints between locations. A constraint is attached to a location and looked at again
whenever the location gains an object. That one location holds all that another one holds is an
edge, and needs no constraint. -/

namespace CallFlow

inductive Dispatch where
  | direct
  /-- It is the receiver, whose `call` is called. -/
  | call
  | apply
deriving DecidableEq, Repr, Ord

def Dispatch.isReflective : Dispatch → Bool
  | .direct => false
  | .call | .apply => true

/-- A call of a node that waits for functions to run. -/
structure PendingCall where
  caller : Nat
  pc : Nat
  dispatch : Dispatch
deriving DecidableEq, Repr, Ord

/-- A call of a node, a node that it runs, and the function object it was found by. -/
structure Binding where
  caller : Nat
  pc : Nat
  callee : Nat
  function : Nat
  dispatch : Dispatch
deriving DecidableEq, Repr, Ord

instance : Placed Binding := ⟨fun b => Placed.ofNats [b.caller, b.pc, b.callee, b.function]⟩

/-- What follows from the objects that a location holds. -/
inductive Constraint where
  /-- Attached to the base: `dst` holds what the property of each of its objects holds. -/
  | load (property : Property) (dst : Nat)
  /-- Attached to the base: the property of each of its objects holds what `src` holds. -/
  | store (property : Property) (src : Nat)
  /-- Attached to `object` and `key`: a load of each property that the key names. -/
  | dynamicLoad (object key dst : Nat)
  /-- Attached to `object` and `key`: a store to each property that the key names. -/
  | dynamicStore (object key src : Nat)
  /-- Attached to the callee: each of its functions is called. -/
  | invoke (call : PendingCall)
deriving DecidableEq, Repr

instance : Placed Constraint where
  place
    | .load p dst => Placed.ofNats [0, Placed.place p, dst]
    | .store p src => Placed.ofNats [1, Placed.place p, src]
    | .dynamicLoad object key dst => Placed.ofNats [2, object, key, dst]
    | .dynamicStore object key src => Placed.ofNats [3, object, key, src]
    | .invoke call => Placed.ofNats [4, call.caller, call.pc]

def Constraint.word : Constraint → String
  | load _ _ => "LOAD"
  | store _ _ => "STORE"
  | dynamicLoad _ _ _ => "DYNAMIC_LOAD"
  | dynamicStore _ _ _ => "DYNAMIC_STORE"
  | invoke _ => "INVOKE"

end CallFlow
