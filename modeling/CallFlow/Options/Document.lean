import CallFlow.Options.Basic
import CallFlow.Json.Record
import CallFlow.Json.Reader

/-! Options as a JSON document: a strict record in which every field has a default. -/

namespace CallFlow.Options

def limitOfJson? (j : Json) : Option UInt64 := (j.asNat? UInt64.size).map UInt64.ofNat

def ofJson? (j : Json) : Option Options := do
  let f ← j.fields? fieldNames true
  let base := default
  let algorithm ← f.defaulted "algorithm" (fun j => j.asWord?.bind Algorithm.ofSpelling?)
    base.algorithm
  let reflection ← f.defaulted "reflection" (fun j => j.asWord?.bind Reflection.ofSpelling?)
    base.reflection
  let maxNodes ← f.defaulted "max_nodes" (Json.asOption? limitOfJson?) base.maxNodes
  let timeoutMs ← f.defaulted "timeout_ms" (Json.asOption? limitOfJson?) base.timeoutMs
  let handleCallApply ← f.defaulted "handle_call_apply" Json.asBool? base.handleCallApply
  let constantSpecific ←
    f.defaulted "use_constant_specific_keys" Json.asBool? base.constantSpecific
  let allocationKeys ←
    f.defaulted "instance_keys" (fun j => j.asWord?.bind AllocationKeys.ofSpelling?)
      base.allocationKeys
  some { algorithm, reflection, maxNodes, timeoutMs, handleCallApply, constantSpecific,
         allocationKeys }

def toJson (limit : UInt64 → Json) (o : Options) : Json :=
  .record [("algorithm", .text o.algorithm.spelling), ("reflection", .text o.reflection.spelling),
    ("max_nodes", .option limit o.maxNodes), ("timeout_ms", .option limit o.timeoutMs),
    ("handle_call_apply", .bool o.handleCallApply),
    ("use_constant_specific_keys", .bool o.constantSpecific),
    ("instance_keys", .text o.allocationKeys.spelling)]

end CallFlow.Options
