import CallFlow.Graph.Method
import CallFlow.IdSet
import CallFlow.Numbering

/-! Call graphs. A node is a method in a context and owns its calls, in the order of their places; a
call owns the set of the nodes that it may run. A finished graph in which everything was found leads
each call that runs nothing to one extra node for the unknown. -/

namespace CallFlow

structure SiteTargets where
  site : CallSite
  targets : IdSet := .empty
deriving DecidableEq, Repr

structure Edge where
  caller : Nat
  site : CallSite
  callee : Nat
deriving DecidableEq, Repr

/-- An edge that names its nodes by what they stand for. -/
structure EdgeKey where
  callerMethod : Method
  callerContext : Context
  pc : Nat
  calleeMethod : Method
  calleeContext : Context
deriving DecidableEq, Repr, Ord

structure CallGraph where
  /-- What the nodes run, and in which contexts. -/
  methods : Numbering (Method × Context)
  /-- The calls of the nodes, by the numbers of the nodes, in ascending order of their places. -/
  calls : Array (List SiteTargets)
  edgeCount : Nat := 0
  /-- The node for the unknown, if a call is led to it. -/
  unknown : Option Nat := none
  /-- Whether everything was found. -/
  isComplete : Bool := false
deriving DecidableEq, Repr

namespace SiteTargets

/-- Looks for the call at a place in an ascending list, adds it if it is missing, and changes it
by `f`. -/
def alter (site : CallSite) (f : SiteTargets → SiteTargets) : List SiteTargets → List SiteTargets
  | [] => [f { site }]
  | s :: rest =>
    if site.pc < s.site.pc then f { site } :: s :: rest
    else if site.pc = s.site.pc then f s :: rest
    else s :: alter site f rest

def find? (pc : Nat) (ss : List SiteTargets) : Option SiteTargets :=
  List.find? (fun s => decide (s.site.pc = pc)) ss

def add (callee : Nat) (s : SiteTargets) : SiteTargets :=
  { s with targets := (s.targets.insert callee).2 }

end SiteTargets

namespace CallGraph

def fakeRoot : Nat := 0

def new : CallGraph where
  methods := (Numbering.empty.number (.fakeRoot, .everywhere)).2
  calls := #[[]]

instance : Inhabited CallGraph := ⟨new⟩

def nodeCount (g : CallGraph) : Nat := g.methods.size

def nodes (g : CallGraph) : List Node := g.methods.entries.map fun (id, m, c) => ⟨id, m, c⟩

def node? (g : CallGraph) (id : Nat) : Option Node :=
  (g.methods.value? id).map fun (m, c) => ⟨id, m, c⟩

def find? (g : CallGraph) (m : Method) (c : Context) : Option Nat := g.methods.find? (m, c)

def sites (g : CallGraph) (id : Nat) : List SiteTargets := g.calls.getD id []

def site? (g : CallGraph) (id pc : Nat) : Option SiteTargets := SiteTargets.find? pc (g.sites id)

def targets? (g : CallGraph) (id pc : Nat) : Option IdSet := (g.site? id pc).map (·.targets)

/-- The number of the node for a method in a context, whether it is new, and the graph that has
it. -/
def addNode (g : CallGraph) (m : Method) (c : Context) : (Nat × Bool) × CallGraph :=
  let found := g.methods.numberNew (m, c)
  (found.1,
    { g with
      methods := found.2
      calls := if found.1.2 then g.calls.push [] else g.calls })

def updateSites (g : CallGraph) (id : Nat) (f : List SiteTargets → List SiteTargets) : CallGraph :=
  { g with calls := g.calls.modify id f }

/-- Adds a call to a node, unless the node has one at its place. -/
def addSite (g : CallGraph) (id : Nat) (site : CallSite) : CallGraph :=
  g.updateSites id (SiteTargets.alter site fun s => s)

def hasEdge (g : CallGraph) (caller pc callee : Nat) : Bool :=
  (g.targets? caller pc).any (·.contains callee)

/-- Lets a call run a node; the flag says whether that is new. -/
def addEdge (g : CallGraph) (caller : Nat) (site : CallSite) (callee : Nat) : Bool × CallGraph :=
  if caller < g.nodeCount then
    if g.hasEdge caller site.pc callee then (false, g)
    else
      let g := g.updateSites caller (SiteTargets.alter site (SiteTargets.add callee))
      (true, { g with edgeCount := g.edgeCount + 1 })
  else (false, g)

/-- The calls that run nothing, with the numbers of their nodes. -/
def unresolved (g : CallGraph) : List (Nat × CallSite) :=
  g.calls.toList.zipIdx.flatMap fun (sites, id) =>
    (sites.filter (·.targets.isEmpty)).map fun s => (id, s.site)

def finish (g : CallGraph) (complete : Bool) : CallGraph :=
  let g := { g with isComplete := complete }
  if complete then
    match g.unresolved with
    | [] => g
    | waiting =>
      let added := g.addNode .unknown .everywhere
      let id := added.1.1
      waiting.foldl (fun g (node, site) => (g.addEdge node site id).2)
        { added.2 with unknown := some id }
  else g

def nodesOf (g : CallGraph) (f : FunctionId) : List Nat :=
  (g.nodes.filter fun n => decide (n.method = .function f)).map (·.id)

def methodCount (g : CallGraph) : Nat := (g.nodes.map (·.method)).eraseDups.length

def successors (g : CallGraph) (id : Nat) : List Nat :=
  (IdSet.ofList ((g.sites id).flatMap (·.targets.toList))).toList

/-- The edges in the order of callers, places and callees. -/
def edges (g : CallGraph) : List Edge :=
  g.calls.toList.zipIdx.flatMap fun (sites, id) =>
    sites.flatMap fun s => s.targets.toList.map fun callee => ⟨id, s.site, callee⟩

def edgeKey? (g : CallGraph) (e : Edge) : Option EdgeKey :=
  match g.node? e.caller, g.node? e.callee with
  | some a, some b => some ⟨a.method, a.context, e.site.pc, b.method, b.context⟩
  | _, _ => none

/-- What the edges stand for, in ascending order and each once. -/
def edgeKeys (g : CallGraph) : List EdgeKey :=
  ((g.edges.filterMap g.edgeKey?).mergeSort fun a b => (compare a b).isLE).eraseReps

end CallGraph

end CallFlow
