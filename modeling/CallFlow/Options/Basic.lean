import CallFlow.Failure

/-! Options of an analysis and their spellings. Each word has one spelling that is written, and a
few more that are understood where a person types it. -/

namespace CallFlow

/-- Which calls are told apart. -/
inductive Algorithm where
  /-- None: one analysis per function. -/
  | zeroCfa
  /-- Constructions and reflective calls, by their call site. -/
  | zeroOneCfa
  /-- All, by their call site. -/
  | oneCfa
deriving DecidableEq, Repr

/-- Which computed property names are understood. -/
inductive Reflection where
  /-- Numbers only. -/
  | none
  /-- Numbers and known strings. -/
  | stringOnly
  /-- Everything: unknown names go through summaries of the object. -/
  | full
deriving DecidableEq, Repr

/-- What one abstract object stands for. -/
inductive AllocationKeys where
  /-- All objects of an allocating instruction. -/
  | allocationSites
  | contextAllocations
deriving DecidableEq, Repr

/-- A text in lower case with hyphens for underscores. -/
def normalizedWord (s : String) : String :=
  String.ofList (s.toList.map fun c => if Text.lowerAscii c = '_' then '-' else Text.lowerAscii c)

namespace Algorithm

def all : List Algorithm := [.zeroCfa, .zeroOneCfa, .oneCfa]

def spelling : Algorithm → String
  | .zeroCfa => "zero-cfa"
  | .zeroOneCfa => "zero-one-cfa"
  | .oneCfa => "one-cfa"

def ofSpelling? (s : String) : Option Algorithm := all.find? fun a => decide (a.spelling = s)

/-- The algorithm that a typed word means; case does not matter, and digits may stand for
numbers. -/
def ofWord (s : String) : Except OptionFailure Algorithm :=
  let w := normalizedWord s
  if w = "zero-cfa" ∨ w = "0-cfa" then .ok .zeroCfa
  else if w = "zero-one-cfa" ∨ w = "zeroone-cfa" ∨ w = "0-1-cfa" then .ok .zeroOneCfa
  else if w = "one-cfa" ∨ w = "1-cfa" then .ok .oneCfa
  else .error (.unknownWord "algorithm" s (all.map spelling))

end Algorithm

namespace Reflection

def all : List Reflection := [.none, .stringOnly, .full]

def spelling : Reflection → String
  | .none => "none"
  | .stringOnly => "string-only"
  | .full => "full"

def ofSpelling? (s : String) : Option Reflection := all.find? fun r => decide (r.spelling = s)

def ofWord (s : String) : Except OptionFailure Reflection :=
  let w := normalizedWord s
  if w = "none" then .ok .none
  else if w = "string-only" then .ok .stringOnly
  else if w = "full" then .ok .full
  else .error (.unknownWord "reflection" s (all.map spelling))

/-- Whether a known string names a property. -/
def resolvesStrings : Reflection → Bool
  | .none => false
  | .stringOnly | .full => true

/-- Whether an unknown name reaches the summaries of an object. -/
def modelsUnknown : Reflection → Bool
  | .none | .stringOnly => false
  | .full => true

end Reflection

namespace AllocationKeys

def all : List AllocationKeys := [.allocationSites, .contextAllocations]

def spelling : AllocationKeys → String
  | .allocationSites => "allocation-sites"
  | .contextAllocations => "context-allocations"

def ofSpelling? (s : String) : Option AllocationKeys := all.find? fun k => decide (k.spelling = s)

end AllocationKeys

def defaultTimeoutMs : UInt64 := 7200000

structure Options where
  algorithm : Algorithm := .zeroOneCfa
  reflection : Reflection := .none
  /-- The most nodes a call graph may get. -/
  maxNodes : Option UInt64 := none
  /-- The time limit in milliseconds. -/
  timeoutMs : Option UInt64 := some defaultTimeoutMs
  /-- Whether calls through `call` and `apply` are calls of the function they are read from. -/
  handleCallApply : Bool := true
  /-- Whether constants are told apart by their values. -/
  constantSpecific : Bool := false
  allocationKeys : AllocationKeys := .allocationSites
deriving DecidableEq, Repr

namespace Options

def fieldNames : List String :=
  ["algorithm", "reflection", "max_nodes", "timeout_ms", "handle_call_apply",
    "use_constant_specific_keys", "instance_keys"]

def default : Options := {}

instance : Inhabited Options := ⟨default⟩

/-- Accepts options that an analysis can run with, or says why not: a limit of zero, or strings to
be resolved that do not keep their values. -/
def validate (o : Options) : Except OptionFailure Unit :=
  if o.maxNodes = some 0 then .error .zeroCeiling
  else if o.timeoutMs = some 0 then .error .zeroTimeout
  else if o.reflection = .stringOnly ∧ o.constantSpecific = false then .error .stringsForgotten
  else .ok ()

end Options

end CallFlow
