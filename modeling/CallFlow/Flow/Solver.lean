import CallFlow.Flow.Worklist
import CallFlow.Flow.Solution
import CallFlow.Number.Reading

/-! The constraint solver. Objects, edges and constraints of locations are only ever added, and a
location that gains objects is put on the worklist. A location that was never handed out has no
cell: it reads as empty, and trying to change it only sets the mark `dangling`. -/

namespace CallFlow

structure Cell where
  facts : IdSet := .empty
  /-- The locations that hold all the facts too, in the order in which they were added. -/
  successors : Numbering Nat := .empty
  /-- The constraints attached to the location, in the order in which they were added. -/
  constraints : Numbering Constraint := .empty
deriving DecidableEq, Repr

instance : Inhabited Cell := ⟨{}⟩

structure SolverCounters where
  propagations : Nat := 0
  edges : Nat := 0
  constraints : Nat := 0
  facts : Nat := 0
deriving DecidableEq, Repr

structure Solver where
  reflection : Reflection := .none
  names : Numbering String := .empty
  objects : Numbering AbstractObject := .empty
  locations : Numbering Location := .empty
  cells : Array Cell := #[]
  worklist : Worklist := .empty
  counters : SolverCounters := {}
  /-- Whether a location that was never handed out was asked for. -/
  dangling : Bool := false
deriving DecidableEq

inductive PropertyName where
  | proto
  | element
  | named (name : String)
deriving DecidableEq, Repr

/-- The property that a name means: the link to the inherited object, an element if the name is
the number of one, or else the property of that name. -/
def PropertyName.of (name : String) : PropertyName :=
  if name = protoName then .proto
  else if Number.isElementIndex name then .element
  else .named name

namespace Solver

def new (reflection : Reflection) : Solver := { reflection }

instance : Inhabited Solver := ⟨new .none⟩

def name (s : Solver) (n : String) : Nat × Solver :=
  let found := s.names.findOrNumber n
  (found.1, { s with names := found.2 })

def object (s : Solver) (o : AbstractObject) : Nat × Solver :=
  let found := s.objects.number o
  (found.1, { s with objects := found.2 })

def location (s : Solver) (l : Location) : Nat × Solver :=
  let found := s.locations.numberNew l
  (found.1.1,
    { s with
      locations := found.2
      cells := if found.1.2 then s.cells.push {} else s.cells })

def var (s : Solver) (node : Nat) (v : VarId) : Nat × Solver := s.location (.var node v)

def result (s : Solver) (node : Nat) : Nat × Solver := s.location (.result node)

def field (s : Solver) (object : Nat) (p : Property) : Nat × Solver :=
  s.location (.field object p)

def global (s : Solver) (n : String) : Nat × Solver :=
  let named := s.name n
  named.2.location (.global named.1)

def lexical (s : Solver) (definer : FunctionId) (n : String) : Nat × Solver :=
  let named := s.name n
  named.2.location (.lexical definer named.1)

def property (s : Solver) (n : String) : Property × Solver :=
  match PropertyName.of n with
  | .proto => (.proto, s)
  | .element => (.element, s)
  | .named n =>
    let named := s.name n
    (.named named.1, named.2)

def cell (s : Solver) (k : Nat) : Cell := s.cells.getD k {}

def facts (s : Solver) (k : Nat) : IdSet := (s.cell k).facts

/-- Notes whether a location was never handed out. -/
def require (s : Solver) (k : Nat) : Solver :=
  if k < s.cells.size then s else { s with dangling := true }

def updateCell (s : Solver) (k : Nat) (f : Cell → Cell) : Solver :=
  let s := s.require k
  { s with cells := s.cells.modify k f }

def push (s : Solver) (item : WorkItem) : Solver :=
  { s with worklist := (s.worklist.push item).2 }

def next? (s : Solver) : Option (WorkItem × Solver) :=
  s.worklist.pop.map fun (item, worklist) => (item, { s with worklist })

def pending (s : Solver) : Nat := s.worklist.size

/-- Gives a location the facts of a larger set, so many of them new, and puts it on the worklist. -/
def grow (s : Solver) (k : Nat) (facts : IdSet) (gained : Nat) : Solver :=
  let s := s.updateCell k fun c => { c with facts }
  { s with counters := { s.counters with facts := s.counters.facts + gained } }.push
    (.propagate k)

/-- Adds an object to a location; the flag says whether it is new there. -/
def addFact (s : Solver) (k object : Nat) : Bool × Solver :=
  let grown := (s.facts k).insert object
  if grown.1 then (true, s.grow k grown.2 1) else (false, s.require k)

def unionInto (s : Solver) (facts : IdSet) (k : Nat) : Solver :=
  let grown := (s.facts k).union facts
  if grown.1 then s.grow k grown.2 (grown.2.size - (s.facts k).size) else s.require k

/-- Makes one location hold all that another holds; the flag says whether the edge is new. The
facts already there are passed on at once. -/
def addEdge (s : Solver) (src dst : Nat) : Bool × Solver :=
  if src = dst ∨ (s.cell src).successors.contains dst then (false, s)
  else
    let s := s.updateCell src fun c => { c with successors := (c.successors.number dst).2 }
    let s := { s with counters := { s.counters with edges := s.counters.edges + 1 } }
    (true, if (s.facts src).isEmpty then s else s.unionInto (s.facts src) dst)

/-- Attaches a constraint to a location; the flag says whether it is new there. A location that
holds objects is put on the worklist, so that the constraint sees them. -/
def addConstraint (s : Solver) (k : Nat) (c : Constraint) : Bool × Solver :=
  if (s.cell k).constraints.contains c then (false, s)
  else
    let s := s.updateCell k fun cell =>
      { cell with constraints := (cell.constraints.number c).2 }
    let s := { s with
      counters := { s.counters with constraints := s.counters.constraints + 1 } }
    (true, if (s.facts k).isEmpty then s else s.push (.propagate k))

def isObject (s : Solver) (o : Nat) : Bool := (s.objects.value? o).any (!·.isPrimitive)

def readField (object dst : Nat) (s : Solver) (p : Property) : Solver :=
  let found := s.field object p
  (found.2.addEdge found.1 dst).2

def writeField (object src : Nat) (s : Solver) (p : Property) : Solver :=
  let found := s.field object p
  (found.2.addEdge src found.1).2

/-- Makes `dst` hold what a property of an object holds, inherited or not. -/
def load (s : Solver) (p : Property) (dst object : Nat) : Solver :=
  if s.isObject object then
    let s := (p.readSet s.reflection).foldl (readField object dst) s
    if p.isInherited then
      let link := s.field object .proto
      (link.2.addConstraint link.1 (.load p dst)).2
    else s
  else s

def store (s : Solver) (p : Property) (src object : Nat) : Solver :=
  if s.isObject object then (p.writeSet s.reflection).foldl (writeField object src) s else s

/-- The property that an object names when it is used as a key. A number names an element, and so
does the text of one; any other text names the property of that name where texts are resolved; and
all else names an unknown property where those are modelled. -/
def keyProperty (s : Solver) (key : Nat) : Option Property × Solver :=
  match s.objects.value? key with
  | some (.constant (.number _)) | some (.constantKind .number) => (some .element, s)
  | some (.constant (.string n)) =>
    if Number.isElementIndex n then (some .element, s)
    else if s.reflection.resolvesStrings then
      let named := s.name n
      (some (.named named.1), named.2)
    else (none, s)
  | _ => (if s.reflection.modelsUnknown then some .unknownName else none, s)

def collectProperty (found : List Property × Solver) (key : Nat) : List Property × Solver :=
  let p := found.2.keyProperty key
  match p.1 with
  | some q => (if q ∈ found.1 then found.1 else found.1 ++ [q], p.2)
  | none => (found.1, p.2)

def keyProperties (s : Solver) (keys : IdSet) : List Property × Solver :=
  keys.toList.foldl collectProperty ([], s)

/-- Looks at one constraint of a location that holds the given objects. Calls are left to whoever
builds the call graph. -/
def apply (facts : IdSet) (s : Solver) : Constraint → Solver
  | .load p dst => facts.toList.foldl (fun s o => s.load p dst o) s
  | .store p src => facts.toList.foldl (fun s o => s.store p src o) s
  | .dynamicLoad object key dst =>
    let objects := s.facts object
    let named := ((s.require object).require key).keyProperties (s.facts key)
    objects.toList.foldl (fun s o => named.1.foldl (fun s p => s.load p dst o) s) named.2
  | .dynamicStore object key src =>
    let objects := s.facts object
    let named := ((s.require object).require key).keyProperties (s.facts key)
    objects.toList.foldl (fun s o => named.1.foldl (fun s p => s.store p src o) s) named.2
  | .invoke _ => s

def callOf? : Constraint → Option PendingCall
  | .invoke call => some call
  | _ => none

/-- Passes the objects of a location along its edges and looks at its constraints. Answers the
calls whose callee the location is, with the objects that it held at the start. -/
def propagate (s : Solver) (k : Nat) : List (PendingCall × IdSet) × Solver :=
  let cell := s.cell k
  let s := s.require k
  let s := { s with counters := { s.counters with propagations := s.counters.propagations + 1 } }
  if cell.facts.isEmpty then ([], s)
  else
    let s := cell.successors.values.foldl (unionInto · cell.facts ·) s
    let s := cell.constraints.values.foldl (apply cell.facts) s
    ((cell.constraints.values.filterMap callOf?).map fun call => (call, cell.facts), s)

/-- Works off the worklist by `fuel` items at most; items that are no locations are dropped.
Answers the items with the calls that each of them asked for. -/
def drainWithin (fuel : Nat) (s : Solver) :
    List (WorkItem × List (PendingCall × IdSet)) × Solver :=
  match fuel with
  | 0 => ([], s)
  | fuel + 1 =>
    match s.next? with
    | none => ([], s)
    | some (item, s) =>
      let done := match item with
        | .propagate k => s.propagate k
        | .visit _ | .target _ => ([], s)
      let rest := drainWithin fuel done.2
      ((item, done.1) :: rest.1, rest.2)

def weight (s : Solver) : Nat :=
  s.names.size + s.objects.size + s.locations.size + s.counters.edges + s.counters.constraints
    + s.counters.facts + s.pending + 8

/-- Works off the whole worklist. Names and objects hardly grow any more, so the fields, hence the
facts and the constraints, stay below a power of the weight. -/
def drain (s : Solver) : List (WorkItem × List (PendingCall × IdSet)) × Solver :=
  s.drainWithin (s.weight.pow 8)

def solution (s : Solver) : Solution :=
  { names := s.names
    objects := s.objects
    locations := s.locations
    sets := s.cells.map Cell.facts }

end Solver

end CallFlow
