import CallFlow.Graph.Method
import CallFlow.Heap.Document
import CallFlow.Program.Document

/-! Methods, calls and nodes as JSON values. -/

namespace CallFlow

namespace Method

def ofJson? (j : Json) : Option Method := do
  match ← j.variant? with
  | ("FakeRoot", v) => Json.bare? .fakeRoot v
  | ("Function", some v) => v.asUInt32?.map .function
  | ("Builtin", some v) => (Builtin.ofJson? v).map .builtin
  | ("Unknown", v) => Json.bare? .unknown v
  | _ => none

def toJson : Method → Json
  | .fakeRoot => .text "FakeRoot"
  | .function f => .tagged "Function" (.nat f.toNat)
  | .builtin b => .tagged "Builtin" (.text b.word)
  | .unknown => .text "Unknown"

end Method

namespace CallSite

def ofJson? (j : Json) : Option CallSite := do
  let f ← j.fields? ["pc", "kind"] false
  some ⟨← f.required "pc" Json.asIndex?,
    ← f.required "kind" fun j => j.asWord?.bind CallKind.ofWord?⟩

def toJson (s : CallSite) : Json := .record [("pc", .nat s.pc), ("kind", .text s.kind.word)]

end CallSite

namespace Node

def ofJson? (j : Json) : Option Node := do
  let f ← j.fields? ["id", "method", "context"] false
  some ⟨← f.required "id" Json.asIndex?, ← f.required "method" Method.ofJson?,
    ← f.required "context" Context.ofJson?⟩

def toJson (n : Node) : Json :=
  .record [("id", .nat n.id), ("method", n.method.toJson), ("context", n.context.toJson)]

end Node

end CallFlow
