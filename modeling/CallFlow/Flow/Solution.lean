import CallFlow.IdSet
import CallFlow.Numbering
import CallFlow.Sum
import CallFlow.Heap.Object
import CallFlow.Heap.Location

/-! What every location may hold, when the work is over or was cut short. -/

namespace CallFlow

structure Solution where
  names : Numbering String := .empty
  objects : Numbering AbstractObject := .empty
  locations : Numbering Location := .empty
  sets : Array IdSet := #[]
deriving DecidableEq

namespace Solution

def set? (s : Solution) (l : Location) : Option IdSet :=
  (s.locations.find? l).bind fun k => s.sets[k]?

def objectsAt (s : Solution) (l : Location) : List AbstractObject :=
  match s.set? l with
  | some set => set.toList.filterMap s.objects.value?
  | none => []

def objectsOfVar (s : Solution) (node : Nat) (v : VarId) : List AbstractObject :=
  s.objectsAt (.var node v)

def objectsOfProperty (s : Solution) (object : Nat) (name : String) : List AbstractObject :=
  match s.names.find? name with
  | some n => s.objectsAt (.field object (.named n))
  | none => []

def entries (s : Solution) : List (Location × IdSet) := s.locations.values.zip s.sets.toList

def factCount (s : Solution) : Nat := sumOver IdSet.size s.sets.toList

end Solution

end CallFlow
