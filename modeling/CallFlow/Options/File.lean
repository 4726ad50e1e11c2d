import CallFlow.Options.Basic
import CallFlow.Yaml.Reader

/-! Configuration files. A file that cannot be read as one is refused first, then a version of its
format that is not 1, then options that no analysis can run with. -/

namespace CallFlow.Options

def fileVersion : Nat := 1

def entryOr {α : Type} (entries : List (String × Yaml)) (key : String) (read : Yaml → Option α)
    (default : α) : Option α :=
  match entries.lookup key with
  | none => some default
  | some y => read y

def limitOfYaml? (y : Yaml) : Option UInt64 := (y.asNat? UInt64.size).map UInt64.ofNat

def ofYaml? (d : Yaml.Document) (y : Yaml) : Option Options := do
  let entries ← d.entries? fieldNames y
  let base := default
  let algorithm ← entryOr entries "algorithm"
    (fun y => y.asWord?.bind Algorithm.ofSpelling?) base.algorithm
  let reflection ← entryOr entries "reflection"
    (fun y => y.asWord?.bind Reflection.ofSpelling?) base.reflection
  let maxNodes ← entryOr entries "max_nodes" (Yaml.asOption? limitOfYaml?) base.maxNodes
  let timeoutMs ← entryOr entries "timeout_ms" (Yaml.asOption? limitOfYaml?) base.timeoutMs
  let handleCallApply ← entryOr entries "handle_call_apply" Yaml.asBool? base.handleCallApply
  let constantSpecific ← entryOr entries "use_constant_specific_keys" Yaml.asBool?
    base.constantSpecific
  let allocationKeys ← entryOr entries "instance_keys"
    (fun y => y.asWord?.bind AllocationKeys.ofSpelling?) base.allocationKeys
  some { algorithm, reflection, maxNodes, timeoutMs, handleCallApply, constantSpecific,
         allocationKeys }

def fileParts? (d : Yaml.Document) : Option (Option Nat × Options) := do
  let entries ← d.entries? ["version", "analysis"] (d.follow d.root)
  let version ← entryOr entries "version" (Yaml.asOption? (Yaml.asNat? UInt32.size)) none
  let options ← entryOr entries "analysis" (ofYaml? d) default
  some (version, options)

def ofFile (text : String) : Except OptionFailure Options :=
  match (Yaml.parse? text).bind fileParts? with
  | none => .error .malformed
  | some (none, _) => .error .missingVersion
  | some (some version, options) =>
    if version ≠ fileVersion then .error (.unsupportedVersion version)
    else
      match options.validate with
      | .error why => .error why
      | .ok () => .ok options

def limitText : Option UInt64 → String
  | none => "null"
  | some n => toString n

def fileLines (o : Options) : List String :=
  ["version: " ++ toString fileVersion,
    "analysis:",
    "  algorithm: " ++ o.algorithm.spelling,
    "  reflection: " ++ o.reflection.spelling,
    "  max_nodes: " ++ limitText o.maxNodes,
    "  timeout_ms: " ++ limitText o.timeoutMs,
    "  handle_call_apply: " ++ toString o.handleCallApply,
    "  use_constant_specific_keys: " ++ toString o.constantSpecific,
    "  instance_keys: " ++ o.allocationKeys.spelling]

def toFile (o : Options) : String := String.join (o.fileLines.map (· ++ "\n"))

end CallFlow.Options
