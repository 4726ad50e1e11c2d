import CallFlow.Options.Basic
import CallFlow.Number.Reading

/-! The arguments of the command line. Each is an option by its long name or its letter, or the
value of the option before it, and is given at most once. The first one that is wrong decides, as
does a request for help. -/

namespace CallFlow

structure Arguments where
  /-- The file of the program. -/
  scripts : Option String := none
  /-- The file for the listing. -/
  output : Option String := none
  /-- The configuration file. -/
  config : Option String := none
  reflection : Option Reflection := none
  timeoutMs : Option UInt64 := none
  noSourceNumbers : Bool := false
  handleCallApply : Option Bool := none
  constantSpecific : Bool := false
  contextAllocations : Bool := false
  maxNodes : Option Int := none
  algorithm : Option Algorithm := none
  /-- The file for the drawing. -/
  drawing : Option String := none
deriving DecidableEq, Repr

inductive Flag where
  | scripts
  | output
  | config
  | reflection
  | timeout
  | noSourceNumbers
  | handleCallApply
  | constantSpecific
  | contextAllocations
  | maxNodes
  | algorithm
  | drawing
  | help
deriving DecidableEq, Repr

namespace Flag

def all : List Flag :=
  [scripts, output, config, reflection, timeout, noSourceNumbers, handleCallApply,
    constantSpecific, contextAllocations, maxNodes, algorithm, drawing, help]

def name : Flag → String
  | scripts => "scripts"
  | output => "cgoutput"
  | config => "config"
  | reflection => "reflection-setting"
  | timeout => "timeout"
  | noSourceNumbers => "no-source-numbers"
  | handleCallApply => "handle-call-apply"
  | constantSpecific => "use-constant-specific-keys"
  | contextAllocations => "context-allocations"
  | maxNodes => "max-number-of-nodes"
  | algorithm => "cgalgo"
  | drawing => "dot"
  | help => "help"

def letter? : Flag → Option Char
  | output => some 'o'
  | timeout => some 't'
  | help => some 'h'
  | _ => none

def hasValue : Flag → Bool
  | noSourceNumbers | constantSpecific | contextAllocations | help => false
  | _ => true

def ofName? (cs : List Char) : Option Flag := all.find? fun f => decide (f.name.toList = cs)

def ofLetter? (c : Char) : Option Flag := all.find? fun f => decide (f.letter? = some c)

end Flag

/-- The number that digits behind an optional plus write. -/
def naturalOfArgument? (cs : List Char) : Option Nat :=
  let ds := if cs.head? = some '+' then cs.tail else cs
  if !ds.isEmpty && ds.all Number.isDigit then some (Number.valueOfDigits ds) else none

/-- The number that digits behind an optional sign write. -/
def integerOfArgument? (cs : List Char) : Option Int :=
  match cs with
  | '-' :: ds =>
    if !ds.isEmpty && ds.all Number.isDigit then some (-(Number.valueOfDigits ds : Int)) else none
  | cs => (naturalOfArgument? cs).map Int.ofNat

namespace Arguments

/-- A value given to a field that has none. -/
def fill {α : Type} (field : Option α) (value : Option α) : Option (Option α) :=
  match field, value with
  | none, some v => some (some v)
  | _, _ => none

def path? (cs : List Char) : Option String := if cs.isEmpty then none else some (String.ofList cs)

def bool? (cs : List Char) : Option Bool :=
  let s := String.ofList cs
  if s = "true" then some true else if s = "false" then some false else none

def limit? (cs : List Char) : Option UInt64 :=
  ((naturalOfArgument? cs).filter fun n => decide (n < UInt64.size)).map UInt64.ofNat

def ceiling? (cs : List Char) : Option Int :=
  (integerOfArgument? cs).filter fun n => decide (-(Nat.pow 2 63 : Int) ≤ n ∧ n < Nat.pow 2 63)

/-- Gives an option its value, if it had none and the value is one. -/
def set? (a : Arguments) (f : Flag) (value : List Char) : Option Arguments :=
  match f with
  | .scripts => (fill a.scripts (path? value)).map fun v => { a with scripts := v }
  | .output => (fill a.output (path? value)).map fun v => { a with output := v }
  | .config => (fill a.config (path? value)).map fun v => { a with config := v }
  | .drawing => (fill a.drawing (path? value)).map fun v => { a with drawing := v }
  | .reflection =>
    (fill a.reflection (Reflection.ofWord (String.ofList value)).toOption).map fun v =>
      { a with reflection := v }
  | .algorithm =>
    (fill a.algorithm (Algorithm.ofWord (String.ofList value)).toOption).map fun v =>
      { a with algorithm := v }
  | .timeout => (fill a.timeoutMs (limit? value)).map fun v => { a with timeoutMs := v }
  | .handleCallApply =>
    (fill a.handleCallApply (bool? value)).map fun v => { a with handleCallApply := v }
  | .maxNodes => (fill a.maxNodes (ceiling? value)).map fun v => { a with maxNodes := v }
  | .noSourceNumbers | .constantSpecific | .contextAllocations | .help => none

def mark? (a : Arguments) (f : Flag) : Option Arguments :=
  match f with
  | .noSourceNumbers => if a.noSourceNumbers then none else some { a with noSourceNumbers := true }
  | .constantSpecific =>
    if a.constantSpecific then none else some { a with constantSpecific := true }
  | .contextAllocations =>
    if a.contextAllocations then none else some { a with contextAllocations := true }
  | _ => none

def isValue (f : Flag) (cs : List Char) : Bool :=
  match cs with
  | '-' :: ds => ds.isEmpty || (f = .maxNodes && ds.all Number.isDigit)
  | _ => true

inductive Request where
  | help
  | run (arguments : Arguments)
deriving DecidableEq, Repr

/-- An argument that names an option: the option, and the value that the argument holds itself. -/
def option? (cs : List Char) : Option (Flag × Option (List Char)) :=
  match cs with
  | '-' :: '-' :: long =>
    (Flag.ofName? (long.takeWhile (· ≠ '='))).map fun f =>
      (f, if '=' ∈ long then some ((long.dropWhile (· ≠ '=')).drop 1) else none)
  | '-' :: c :: rest =>
    (Flag.ofLetter? c).map fun f =>
      (f, match rest with
        | [] => none
        | '=' :: value => some value
        | value => some value)
  | _ => none

/-- Reads arguments behind those that gave `a`; nothing if one of them is wrong. -/
def parseFrom (a : Arguments) : List (List Char) → Option Request
  | [] => some (.run a)
  | ['-', '-'] :: rest => if rest.isEmpty then some (.run a) else none
  | cs :: rest =>
    match option? cs with
    | none => none
    | some (f, held) =>
      if f = .help then if held.isNone ∨ cs.take 2 = ['-', 'h'] then some .help else none
      else if f.hasValue then
        match held, rest with
        | some value, rest => (a.set? f value).bind fun a => parseFrom a rest
        | none, value :: rest =>
          if isValue f value then (a.set? f value).bind fun a => parseFrom a rest else none
        | none, [] => none
      else
        match held with
        | some _ => none
        | none => (a.mark? f).bind fun a => parseFrom a rest

/-- What a command line asks for; nothing if it is wrong, or names no program or no file for the
listing. -/
def parse? (args : List String) : Option Request :=
  match parseFrom {} (args.map String.toList) with
  | some (.run a) => if a.scripts.isSome && a.output.isSome then some (.run a) else none
  | other => other

end Arguments

end CallFlow
