import CallFlow.Context

/-! Abstract objects: all objects that one instruction allocates, in all contexts or in one, one
primitive value or all values of one primitive type, or an object that exists before the program
runs. -/

namespace CallFlow

inductive AllocationKind where
  | object
  | array
  | function (f : FunctionId)
  /-- The prototype object that comes with a function object. -/
  | prototype (f : FunctionId)
deriving DecidableEq, Repr, Ord

/-- An instruction that allocates, and what it creates. -/
structure AllocationSite where
  function : FunctionId
  pc : Nat
  kind : AllocationKind
deriving DecidableEq, Repr, Ord

/-- A primitive value. A number is kept in its canonical pattern, one for each value. -/
inductive Constant where
  | string (value : String)
  | number (value : Binary64)
  | boolean (value : Bool)
deriving DecidableEq, Repr, Ord

def Constant.ofNumber (x : Binary64) : Constant := .number x.canonical

inductive ConstantKind where
  | string
  | number
  | boolean
deriving DecidableEq, Repr, Ord

def ConstantKind.ofLiteral? : Literal → Option ConstantKind
  | .string _ => some .string
  | .number _ => some .number
  | .boolean _ => some .boolean
  | .null => none

/-- Objects that exist before the program runs. -/
inductive Builtin where
  /-- The object at the end of every prototype chain. -/
  | objectPrototype
  /-- The object from which functions inherit `call` and `apply`. -/
  | functionPrototype
  | call
  | apply
deriving DecidableEq, Repr, Ord

namespace Builtin

def name : Builtin → String
  | objectPrototype => "Lprologue.js/Object_prototype"
  | functionPrototype => "Lprologue.js/Function_prototype"
  | call => "Lprologue.js/Function_prototype_call"
  | apply => "Lprologue.js/Function_prototype_apply"

def isCallable : Builtin → Bool
  | call | apply => true
  | objectPrototype | functionPrototype => false

end Builtin

inductive AbstractObject where
  | allocation (site : AllocationSite) (context : Context)
  | constant (value : Constant)
  | constantKind (kind : ConstantKind)
  | builtin (b : Builtin)
deriving DecidableEq, Repr, Ord

instance : Placed AllocationKind where
  place
    | .object => 0
    | .array => 1
    | .function f => Placed.ofNats [2, f.toNat]
    | .prototype f => Placed.ofNats [3, f.toNat]

instance : Placed Builtin where
  place
    | .objectPrototype => 0
    | .functionPrototype => 1
    | .call => 2
    | .apply => 3

instance : Placed AbstractObject where
  place
    | .allocation ⟨f, pc, kind⟩ c => Placed.ofNats [f.toNat, pc, Placed.place kind, Placed.place c]
    | .constant (.string s) => Placed.place s
    | .constant (.number ⟨bits⟩) =>
      Placed.ofNats [(bits >>> 48).toNat, (bits >>> 32).toNat, bits.toNat]
    | .constant (.boolean b) => b.toNat
    | .constantKind _ => 0
    | .builtin b => Placed.place b

def Program.nameOf (p : Program) (f : FunctionId) : String :=
  match p.function? f with
  | some f => f.name
  | none => "f" ++ toString f

def AllocationKind.text (p : Program) : AllocationKind → String
  | .object => "object"
  | .array => "array"
  | .function f => "function " ++ p.nameOf f
  | .prototype f => "prototype of " ++ p.nameOf f

def AllocationKind.label : AllocationKind → String
  | .object => "Object"
  | .array => "Array"
  | .function f => "Function(" ++ toString f ++ ")"
  | .prototype f => "Prototype(" ++ toString f ++ ")"

def ConstantKind.label : ConstantKind → String
  | .string => "String"
  | .number => "Number"
  | .boolean => "Boolean"

namespace AbstractObject

def function? : AbstractObject → Option FunctionId
  | allocation ⟨_, _, .function f⟩ _ => some f
  | _ => none

def builtin? : AbstractObject → Option Builtin
  | builtin b => some b
  | _ => none

def isPrimitive : AbstractObject → Bool
  | constant _ | constantKind _ => true
  | allocation _ _ | builtin _ => false

/-- An object in a listing that does not know the functions' names. -/
def label : AbstractObject → String
  | allocation site _ =>
    "[" ++ site.kind.label ++ " @ f" ++ toString site.function ++ ":" ++ toString site.pc ++ "]"
  | constant (.string s) => "[string " ++ Text.quoted s ++ "]"
  | constant (.number x) => "[number " ++ x.toText ++ "]"
  | constant (.boolean b) => "[boolean " ++ toString b ++ "]"
  | constantKind k => "[" ++ k.label ++ " constants]"
  | builtin b => "[" ++ b.name ++ "]"

def text (p : Program) : AbstractObject → String
  | allocation site context =>
    "[" ++ site.kind.text p ++ " @ " ++ p.nameOf site.function ++ ":" ++ toString site.pc
      ++ " in " ++ context.text p ++ "]"
  | o => o.label

end AbstractObject

end CallFlow
