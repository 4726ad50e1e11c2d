import CallFlow.Graph.Basic
import CallFlow.Flow.Solution

/-! What an analysis answers: all that it found, and why there may be more if it was stopped or
would have needed more nodes than allowed. -/

namespace CallFlow

/-- Why a monitor stops an analysis. Times are in microseconds. -/
inductive CancelReason where
  | timeout (elapsed limit : Nat)
  | requested
deriving DecidableEq, Repr

def millisText (us : Nat) : String := toString (us / 1000) ++ "ms"

def CancelReason.text : CancelReason → String
  | timeout elapsed limit =>
    "timed out after " ++ millisText elapsed ++ " (limit " ++ millisText limit ++ ")"
  | requested => "canceled"

inductive Termination where
  /-- A node was needed beyond the ceiling. -/
  | nodeBudget (limit : UInt64)
  | canceled (why : CancelReason)
  /-- The steps ran out that are more than any well-formed program needs. -/
  | stepLimit
deriving DecidableEq, Repr

def Termination.text : Termination → String
  | nodeBudget limit => "node ceiling of " ++ toString limit ++ " reached"
  | canceled why => why.text
  | stepLimit => "step limit reached"

inductive Completion where
  | complete
  | cut (why : Termination)
deriving DecidableEq, Repr

namespace Completion

def isComplete : Completion → Bool
  | complete => true
  | cut _ => false

def reason? : Completion → Option Termination
  | complete => none
  | cut why => some why

end Completion

structure RunCounters where
  iterations : Nat := 0
  visitedNodes : Nat := 0
  locations : Nat := 0
  objects : Nat := 0
  facts : Nat := 0
  edges : Nat := 0
  constraints : Nat := 0
deriving DecidableEq, Repr

inductive Progress where
  | begin (task : String) (total : Nat)
  | worked (units : Nat)
  | done
deriving DecidableEq, Repr

structure Analysis where
  graph : CallGraph
  solution : Solution
  completion : Completion
  counters : RunCounters
  progress : List Progress
deriving DecidableEq

end CallFlow
