import CallFlow.Dictionary
import CallFlow.Program.Basic

/-! Calling contexts. A context remembers at most one call: the function that makes it and the place
of the call in that function. -/

namespace CallFlow

/-- In which context a function is analysed. -/
inductive Context where
  /-- One analysis for all calls. -/
  | everywhere
  /-- The analysis for one call. -/
  | callString (caller : FunctionId) (pc : Nat)
deriving DecidableEq, Repr, Ord

namespace Context

instance : Inhabited Context := ⟨everywhere⟩

instance : Placed Context where
  place
    | everywhere => 0
    | callString caller pc => Placed.ofNats [caller.toNat, pc, 1]

def isEverywhere : Context → Bool
  | everywhere => true
  | callString _ _ => false

def depth : Context → Nat
  | everywhere => 0
  | callString _ _ => 1

def text (p : Program) : Context → String
  | everywhere => "Everywhere"
  | callString caller pc =>
    let signature := match p.function? caller with
      | some f => f.signature
      | none => "f" ++ toString caller
    "CallStringContext: [ " ++ signature ++ "@" ++ toString pc ++ " ]"

end Context

end CallFlow
