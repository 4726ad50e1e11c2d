import CallFlow.Dictionary
import CallFlow.Program.Basic
import CallFlow.Options.Basic

/-! Storage locations, each of which holds a set of abstract objects. Where unknown property names
are modelled, each object has two more fields: one that every read of a name sees, and one for
whatever is written under any name. -/

namespace CallFlow

inductive Property where
  /-- A property of a known name. -/
  | named (name : Nat)
  | element
  /-- The object that properties are inherited from. -/
  | proto
  /-- What was written under an unknown name. -/
  | unknownName
  /-- What was written under any name. -/
  | allValues
deriving DecidableEq, Repr, Ord

namespace Property

/-- The fields that a read of a property sees. -/
def readSet (r : Reflection) : Property → List Property
  | named n => if r.modelsUnknown then [named n, unknownName] else [named n]
  | element => if r.modelsUnknown then [element, unknownName] else [element]
  | unknownName => [allValues, unknownName]
  | proto => [proto]
  | allValues => [allValues]

/-- The fields that a write of a property goes to. -/
def writeSet (r : Reflection) : Property → List Property
  | named n => if r.modelsUnknown then [named n, allValues] else [named n]
  | element => if r.modelsUnknown then [element, allValues] else [element]
  | unknownName => [unknownName, allValues]
  | proto => [proto]
  | allValues => [allValues]

/-- Whether a read of a property goes on to the object that the property may be inherited from. -/
def isInherited : Property → Bool
  | proto => false
  | _ => true

end Property

/-- The name of the property that links an object to the one it inherits from. -/
def protoName : String := "__proto__"

inductive Location where
  | var (node : Nat) (v : VarId)
  | result (node : Nat)
  | field (object : Nat) (property : Property)
  | global (name : Nat)
  /-- A variable that a function declares and closures may share. -/
  | lexical (definer : FunctionId) (name : Nat)
deriving DecidableEq, Repr, Ord

instance : Placed Property where
  place
    | .named n => n
    | .element => 65532
    | .proto => 65533
    | .unknownName => 65534
    | .allValues => 65535

instance : Placed Location where
  place
    | .var node v => Placed.ofNats [0, node, v.toNat]
    | .result node => Placed.ofNats [1, node]
    | .field object p => Placed.ofNats [2, object, Placed.place p]
    | .global name => Placed.ofNats [3, name]
    | .lexical definer name => Placed.ofNats [4, definer.toNat, name]

def Location.node? : Location → Option Nat
  | .var node _ | .result node => some node
  | _ => none

end CallFlow
