import CallFlow.Heap.Object
import CallFlow.Options.Basic

/-! How objects and values are abstracted: allocations by their site alone or with the context of
the code that runs them, literals by their value or by their type. -/

namespace CallFlow

/-- A way to abstract objects and values. -/
structure HeapPolicy where
  allocationKeys : AllocationKeys := .allocationSites
  constantSpecific : Bool := false
deriving DecidableEq, Repr

namespace HeapPolicy

def ofOptions (o : Options) : HeapPolicy := ⟨o.allocationKeys, o.constantSpecific⟩

def allocation (h : HeapPolicy) (site : AllocationSite) (context : Context) : AbstractObject :=
  match h.allocationKeys with
  | .allocationSites => .allocation site .everywhere
  | .contextAllocations => .allocation site context

def constant? (h : HeapPolicy) (value : Literal) : Option AbstractObject :=
  if h.constantSpecific then
    match value with
    | .string s => some (.constant (.string s))
    | .number x => some (.constant (.ofNumber x))
    | .boolean b => some (.constant (.boolean b))
    | .null => none
  else (ConstantKind.ofLiteral? value).map .constantKind

def name (h : HeapPolicy) : String := h.allocationKeys.spelling

end HeapPolicy

end CallFlow
