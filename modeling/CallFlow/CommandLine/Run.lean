import CallFlow.CommandLine.Complaint
import CallFlow.CommandLine.Help
import CallFlow.Options.File
import CallFlow.Program.Document
import CallFlow.Report.Dot
import CallFlow.Report.EdgeList
import CallFlow.Session

/-! What the command line does: it settles on options, reads and analyses the program, prints the
summary and writes the results. All that touches the outside is done by a host. -/

namespace CallFlow

/-- What the command line needs of the outside. -/
structure Host (m : Type → Type) where
  read : String → m (Except FileFailure String)
  /-- Creates a file with a text, in place of the one there is. -/
  write : String → String → m (Except WriteFailure Unit)
  print : String → m Unit
  /-- Runs a setup watched by a monitor, and says how long it took. -/
  analyze : Setup → Monitor → m (Analysis × String)

inductive Ending where
  | done
  | failed (why : Complaint)
  /-- The arguments are wrong. -/
  | misused
deriving DecidableEq, Repr

def Ending.exitCode : Ending → UInt8
  | done => 0
  | failed _ => 1
  | misused => 2

def Ending.text : Ending → String
  | done => ""
  | failed why => why.text
  | misused => "error: invalid arguments\n\n" ++ usageLine
      ++ "\n\nFor more information, try '--help'."

namespace Arguments

/-- The node ceiling that the command line gives; minus one stands for none. -/
def nodeCeiling (n : Int) : Except OptionFailure (Option UInt64) :=
  if n = -1 then .ok none
  else if n < 0 then .error (.negativeCeiling n)
  else .ok (some (UInt64.ofNat n.toNat))

/-- Options with those of the command line in place of their own. -/
def override (a : Arguments) (o : Options) : Except OptionFailure Options :=
  let o := { o with
    algorithm := a.algorithm.getD o.algorithm
    reflection := a.reflection.getD o.reflection
    timeoutMs := a.timeoutMs.orElse fun _ => o.timeoutMs
    handleCallApply := a.handleCallApply.getD o.handleCallApply
    constantSpecific := a.constantSpecific || o.constantSpecific
    allocationKeys := if a.contextAllocations then .contextAllocations else o.allocationKeys }
  match a.maxNodes with
  | none => .ok o
  | some n =>
    match nodeCeiling n with
    | .error why => .error why
    | .ok maxNodes => .ok { o with maxNodes }

/-- The options of a configuration file that was looked for, or why there are none. -/
def optionsOfFile (found : Except FileFailure String) : Except OptionFailure Options :=
  match found with
  | .error why => .error (.unreadable why)
  | .ok text => Options.ofFile text

/-- The options of the configuration file, or the defaults if there is to be none. -/
def baseOptions (file : Option (String × Except FileFailure String)) :
    Except Complaint Options :=
  match file with
  | none => .ok default
  | some (path, found) =>
    match optionsOfFile found with
    | .error why => .error ⟨"loading config " ++ path, why.causes⟩
    | .ok o => .ok o

/-- The options that the command line settles on, or a complaint: about the configuration file
first, then about the options that replace it. -/
def settle (a : Arguments) (file : Option (String × Except FileFailure String)) :
    Except Complaint Options :=
  match baseOptions file with
  | .error why => .error why
  | .ok o =>
    match a.override o with
    | .error why => .error ⟨why.message, []⟩
    | .ok o => .ok o

def programOfFile (found : Except FileFailure String) : Except Failure Program :=
  match found with
  | .error why => .error (.file why)
  | .ok text => Program.load text

section

variable {m : Type → Type} [Monad m]

def writeResults (a : Arguments) (host : Host m) (p : Program) (g : CallGraph) : m Ending := do
  let output := a.output.getD ""
  match ← host.write output (g.listing p !a.noSourceNumbers) with
  | .error failure => return .failed ⟨"writing " ++ output, failure.cause.causes⟩
  | .ok () =>
    match a.drawing with
    | none =>
      host.print ("Wrote callgraph to " ++ output)
      return .done
    | some path =>
      match ← host.write path (g.drawing p) with
      | .error (.creating why) => return .failed ⟨"creating " ++ path, [why.message]⟩
      | .error (.writing why) => return .failed ⟨why.message, []⟩
      | .ok () =>
        host.print ("Wrote callgraph to " ++ output)
        return .done

def analyzeUnder (a : Arguments) (host : Host m) (o : Options) : m Ending := do
  let scripts := a.scripts.getD ""
  match Session.new o with
  | .error why => return .failed ⟨"invalid analysis options", why.causes⟩
  | .ok session =>
    match programOfFile (← host.read scripts) with
    | .error why => return .failed ⟨"analyzing " ++ scripts, why.causes⟩
    | .ok p =>
      let (analysis, time) ← host.analyze (Setup.ofOptions p o) session.monitor
      ((Summary.of p analysis).lines time).forM host.print
      a.writeResults host p analysis.graph

def run (a : Arguments) (host : Host m) : m Ending := do
  let file ← match a.config with
    | none => pure none
    | some path => do
      let found ← host.read path
      pure (some (path, found))
  match a.settle file with
  | .error why => return .failed why
  | .ok o => a.analyzeUnder host o

def execute (args : List String) (host : Host m) : m Ending :=
  match parse? args with
  | none => pure .misused
  | some .help => do
    helpLines.forM host.print
    return .done
  | some (.run a) => a.run host

end

end Arguments

end CallFlow
