import CallFlow.CommandLine.Arguments

/-! The help of the command line. -/

namespace CallFlow

def Flag.purpose : Flag → String
  | .scripts => "JSON IR document of the program to analyze"
  | .output => "Where to write the edge listing"
  | .config => "YAML configuration file; flags below override its values"
  | .reflection => "Computed property access handling: none, string-only, full"
  | .timeout => "Wall-clock budget in milliseconds"
  | .noSourceNumbers =>
    "Print call instructions as IR (JSCall@pc) instead of file:line:column"
  | .handleCallApply =>
    "Rewrite f.call(..) / f.apply(..) into direct dispatch on f [possible values: true, false]"
  | .constantSpecific => "Distinct instance keys per constant value"
  | .contextAllocations => "Qualify allocation sites by the allocating node's context"
  | .maxNodes => "Node ceiling; -1 for unbounded (other negative values are rejected)"
  | .algorithm => "Call-graph algorithm: zero-cfa, zero-one-cfa, one-cfa"
  | .drawing => "Also write the call graph in Graphviz format"
  | .help => "Print help"

def Flag.valueName : Flag → String
  | .output => "CG_OUTPUT"
  | f => String.ofList (f.name.toList.map fun c => if c = '-' then '_' else c.toUpper)

def Flag.heading (f : Flag) : String :=
  let letter := match f.letter? with
    | some c => "  -" ++ String.singleton c ++ ", "
    | none => "      "
  letter ++ "--" ++ f.name ++ if f.hasValue then " <" ++ f.valueName ++ ">" else ""

def usageLine : String :=
  "Usage: jscallgraph [OPTIONS] --scripts <SCRIPTS> --cgoutput <CG_OUTPUT>"

def helpLines : List String :=
  ["Context-sensitive call graph construction for JavaScript IR", "", usageLine, "", "Options:"]
    ++ Flag.all.flatMap fun f => [f.heading, "          " ++ f.purpose]

end CallFlow
