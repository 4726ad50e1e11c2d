import CallFlow.Heap.Location
import CallFlow.Heap.Object
import CallFlow.Json.Record

/-! Contexts, abstract objects and storage locations as JSON values. A case without data is written
as its name, and one with data as an object of one member under its name. -/

namespace CallFlow

namespace Context

def ofJson? (j : Json) : Option Context := do
  match ← j.variant? with
  | ("Everywhere", v) => Json.bare? .everywhere v
  | ("CallString", some v) => do
    let f ← v.fields? ["caller", "pc"] false
    some (.callString (← f.required "caller" Json.asUInt32?) (← f.required "pc" Json.asIndex?))
  | _ => none

def toJson : Context → Json
  | .everywhere => .text "Everywhere"
  | .callString caller pc =>
    .tagged "CallString" (.record [("caller", .nat caller.toNat), ("pc", .nat pc)])

end Context

namespace Builtin

def word : Builtin → String
  | .objectPrototype => "ObjectPrototype"
  | .functionPrototype => "FunctionPrototype"
  | .call => "Call"
  | .apply => "Apply"

def ofJson? (j : Json) : Option Builtin := do
  match ← j.variant? with
  | ("ObjectPrototype", v) => Json.bare? .objectPrototype v
  | ("FunctionPrototype", v) => Json.bare? .functionPrototype v
  | ("Call", v) => Json.bare? .call v
  | ("Apply", v) => Json.bare? .apply v
  | _ => none

end Builtin

namespace AllocationKind

def ofJson? (j : Json) : Option AllocationKind := do
  match ← j.variant? with
  | ("Object", v) => Json.bare? .object v
  | ("Array", v) => Json.bare? .array v
  | ("Function", some v) => v.asUInt32?.map .function
  | ("Prototype", some v) => v.asUInt32?.map .prototype
  | _ => none

def toJson : AllocationKind → Json
  | .object => .text "Object"
  | .array => .text "Array"
  | .function f => .tagged "Function" (.nat f.toNat)
  | .prototype f => .tagged "Prototype" (.nat f.toNat)

end AllocationKind

namespace AllocationSite

def ofJson? (j : Json) : Option AllocationSite := do
  let f ← j.fields? ["function", "pc", "kind"] false
  some ⟨← f.required "function" Json.asUInt32?, ← f.required "pc" Json.asIndex?,
    ← f.required "kind" AllocationKind.ofJson?⟩

def toJson (s : AllocationSite) : Json :=
  .record [("function", .nat s.function.toNat), ("pc", .nat s.pc), ("kind", s.kind.toJson)]

end AllocationSite

namespace Constant

/-- A primitive value of a document; a number is given by its bits. -/
def ofJson? (j : Json) : Option Constant := do
  match ← j.variant? with
  | ("String", some v) => v.asText?.map .string
  | ("Number", some v) => (v.asNat? UInt64.size).map fun n => .number ⟨UInt64.ofNat n⟩
  | ("Boolean", some v) => v.asBool?.map .boolean
  | _ => none

/-- The document form of a primitive value, with the bits of a number written by `bits`. -/
def toJson (bits : UInt64 → Json) : Constant → Json
  | .string s => .tagged "String" (.text s)
  | .number x => .tagged "Number" (bits x.bits)
  | .boolean b => .tagged "Boolean" (.bool b)

end Constant

def ConstantKind.ofJson? (j : Json) : Option ConstantKind := do
  match ← j.variant? with
  | ("String", v) => Json.bare? .string v
  | ("Number", v) => Json.bare? .number v
  | ("Boolean", v) => Json.bare? .boolean v
  | _ => none

namespace AbstractObject

def ofJson? (j : Json) : Option AbstractObject := do
  match ← j.variant? with
  | ("Allocation", some v) => do
    let f ← v.caseFields? ["site", "context"]
    some (.allocation (← f.required "site" AllocationSite.ofJson?)
      (← f.required "context" Context.ofJson?))
  | ("Constant", some v) => (Constant.ofJson? v).map .constant
  | ("ConstantKind", some v) => (ConstantKind.ofJson? v).map .constantKind
  | ("Builtin", some v) => (Builtin.ofJson? v).map .builtin
  | _ => none

def toJson (bits : UInt64 → Json) : AbstractObject → Json
  | .allocation s c =>
    .tagged "Allocation" (.record [("site", s.toJson), ("context", c.toJson)])
  | .constant c => .tagged "Constant" (c.toJson bits)
  | .constantKind k => .tagged "ConstantKind" (.text k.label)
  | .builtin b => .tagged "Builtin" (.text b.word)

end AbstractObject

namespace Property

def ofJson? (j : Json) : Option Property := do
  match ← j.variant? with
  | ("Named", some v) => v.asIndex?.map .named
  | ("Element", v) => Json.bare? .element v
  | ("Proto", v) => Json.bare? .proto v
  | ("UnknownName", v) => Json.bare? .unknownName v
  | ("AllValues", v) => Json.bare? .allValues v
  | _ => none

def toJson : Property → Json
  | .named n => .tagged "Named" (.nat n)
  | .element => .text "Element"
  | .proto => .text "Proto"
  | .unknownName => .text "UnknownName"
  | .allValues => .text "AllValues"

end Property

namespace Location

def ofJson? (j : Json) : Option Location := do
  match ← j.variant? with
  | ("Local", some v) => do
    let f ← v.caseFields? ["node", "var"]
    some (.var (← f.required "node" Json.asIndex?) (← f.required "var" Json.asUInt32?))
  | ("Return", some v) => do
    let f ← v.caseFields? ["node"]
    some (.result (← f.required "node" Json.asIndex?))
  | ("Field", some v) => do
    let f ← v.caseFields? ["object", "property"]
    some (.field (← f.required "object" Json.asIndex?)
      (← f.required "property" Property.ofJson?))
  | ("Global", some v) => do
    let f ← v.caseFields? ["name"]
    some (.global (← f.required "name" Json.asIndex?))
  | ("Lexical", some v) => do
    let f ← v.caseFields? ["definer", "name"]
    some (.lexical (← f.required "definer" Json.asUInt32?) (← f.required "name" Json.asIndex?))
  | _ => none

def toJson : Location → Json
  | .var n v => .tagged "Local" (.record [("node", .nat n), ("var", .nat v.toNat)])
  | .result n => .tagged "Return" (.record [("node", .nat n)])
  | .field o p => .tagged "Field" (.record [("object", .nat o), ("property", p.toJson)])
  | .global n => .tagged "Global" (.record [("name", .nat n)])
  | .lexical f n => .tagged "Lexical" (.record [("definer", .nat f.toNat), ("name", .nat n)])

end Location

end CallFlow
