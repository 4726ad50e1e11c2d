import CallFlow.Construction.Outcome

/-! The summary of an analysis: how large the call graph is, how much was analysed, and whether
everything was found. -/

namespace CallFlow

structure Summary where
  nodes : Nat
  edges : Nat
  methods : Nat
  /-- The instructions of the functions that some node runs, each function counted once. -/
  instructions : Nat
  locations : Nat
  objects : Nat
  stopped : Option String
deriving DecidableEq, Repr

namespace Summary

def of (p : Program) (a : Analysis) : Summary :=
  let functions := (a.graph.nodes.filterMap (·.method.function?)).eraseDups
  { nodes := a.graph.nodeCount
    edges := a.graph.edgeCount
    methods := a.graph.methodCount
    instructions := sumOver (·.instructions.length) (functions.filterMap p.function?)
    locations := a.counters.locations
    objects := a.counters.objects
    stopped := a.completion.reason?.map (·.text) }

def isComplete (s : Summary) : Bool := s.stopped.isNone

def lines (s : Summary) (time : String) : List String :=
  ["Call graph stats:",
    "  Nodes: " ++ toString s.nodes,
    "  Edges: " ++ toString s.edges,
    "  Methods: " ++ toString s.methods,
    "  IR instructions: " ++ toString s.instructions,
    "  Pointer keys: " ++ toString s.locations,
    "  Instance keys: " ++ toString s.objects,
    "  Time: " ++ time,
    match s.stopped with
    | none => "  Status: complete"
    | some reason => "  Status: partial (" ++ reason ++ ")"]

end Summary

end CallFlow
