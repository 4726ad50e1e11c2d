import CallFlow.Flow.Constraint
import CallFlow.Heap.Document
import CallFlow.IdSet

/-! Sets of numbers, calls and constraints as JSON values. -/

namespace CallFlow

namespace IdSet

/-- A set of a document; its numbers are taken as they stand. -/
def ofJson? (j : Json) : Option IdSet := do
  let f ← j.fields? ["keys"] false
  let ids ← f.required "keys" (Json.asList? Json.asIndex?)
  some ⟨ids.toArray⟩

def members (s : IdSet) : Json := .array (s.toList.map .nat)

def toJson (s : IdSet) : Json := .record [("keys", s.members)]

end IdSet

namespace Dispatch

def word : Dispatch → String
  | .direct => "Direct"
  | .call => "Call"
  | .apply => "Apply"

def ofJson? (j : Json) : Option Dispatch := do
  match ← j.variant? with
  | ("Direct", v) => Json.bare? .direct v
  | ("Call", v) => Json.bare? .call v
  | ("Apply", v) => Json.bare? .apply v
  | _ => none

end Dispatch

namespace PendingCall

def ofJson? (j : Json) : Option PendingCall := do
  let f ← j.fields? ["caller", "pc", "dispatch"] false
  some ⟨← f.required "caller" Json.asIndex?, ← f.required "pc" Json.asIndex?,
    ← f.required "dispatch" Dispatch.ofJson?⟩

def toJson (c : PendingCall) : Json :=
  .record [("caller", .nat c.caller), ("pc", .nat c.pc), ("dispatch", .text c.dispatch.word)]

end PendingCall

def Constraint.ofJson? (j : Json) : Option Constraint := do
  match ← j.variant? with
  | ("Load", some v) => do
    let f ← v.caseFields? ["property", "dst"]
    some (.load (← f.required "property" Property.ofJson?) (← f.required "dst" Json.asIndex?))
  | ("Store", some v) => do
    let f ← v.caseFields? ["property", "src"]
    some (.store (← f.required "property" Property.ofJson?) (← f.required "src" Json.asIndex?))
  | ("DynamicLoad", some v) => do
    let f ← v.caseFields? ["object", "key", "dst"]
    some (.dynamicLoad (← f.required "object" Json.asIndex?) (← f.required "key" Json.asIndex?)
      (← f.required "dst" Json.asIndex?))
  | ("DynamicStore", some v) => do
    let f ← v.caseFields? ["object", "key", "src"]
    some (.dynamicStore (← f.required "object" Json.asIndex?) (← f.required "key" Json.asIndex?)
      (← f.required "src" Json.asIndex?))
  | ("Invoke", some v) => (PendingCall.ofJson? v).map .invoke
  | _ => none

end CallFlow
