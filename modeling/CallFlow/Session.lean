import CallFlow.Construction.Basic
import CallFlow.Report.Summary

/-! Sessions: analyses under a time limit that can be cancelled. A request to stop stays until it is
taken back, and is named before a time limit that has passed. -/

namespace CallFlow

structure Monitor where
  limit : Option Nat := none
  canceled : Bool := false
  /-- How many units of work were reported, as far as a word of 64 bits can tell. -/
  worked : UInt64 := 0
deriving DecidableEq, Repr

namespace Monitor

def observe (m : Monitor) : Progress → Monitor
  | .worked units => { m with worked := m.worked + UInt64.ofNat units }
  | .begin _ _ | .done => m

/-- Why the analysis should stop, when the given time has passed. -/
def reason? (m : Monitor) (elapsed : Nat) : Option CancelReason :=
  if m.canceled then some .requested
  else
    match m.limit with
    | none => none
    | some limit => if limit < elapsed then some (.timeout elapsed limit) else none

end Monitor

def Options.timeLimit (o : Options) : Option Nat := o.timeoutMs.map fun ms => ms.toNat * 1000

/-- The options of analyses and whether these should stop. -/
structure Session where
  options : Options
  canceled : Bool := false
deriving DecidableEq, Repr

structure Report where
  program : Program
  analysis : Analysis
  summary : Summary
deriving DecidableEq

namespace Session

/-- A session, if an analysis can run with the options. -/
def new (o : Options) : Except Failure Session :=
  match o.validate with
  | .error why => .error (.options why)
  | .ok () => .ok { options := o }

def cancel (s : Session) : Session := { s with canceled := true }

def reset (s : Session) : Session := { s with canceled := false }

def monitor (s : Session) : Monitor := { limit := s.options.timeLimit, canceled := s.canceled }

/-- Analyses a program. The clock says how much time has passed before each step. -/
def analyze (s : Session) (p : Program) (clock : Nat → Nat) : Except Failure Analysis :=
  CallFlow.analyze p s.options fun step => s.monitor.reason? (clock step)

def run (s : Session) (p : Program) (clock : Nat → Nat) : Except Failure Report :=
  match p.validate with
  | .error defect => .error (.program defect)
  | .ok () =>
    match s.analyze p clock with
    | .error why => .error why
    | .ok analysis => .ok { program := p, analysis, summary := .of p analysis }

end Session

end CallFlow
