import CallFlow.Program.Position
import CallFlow.Program.Instruction
import CallFlow.Sum

/-! Functions and programs. A function is addressed by its place in the list. Nothing here is
checked; which programs are well-formed is decided in `CallFlow.Program.WellFormed`. -/

namespace CallFlow

/-- The code of one function, or of a script outside of all functions. -/
structure FunctionBody where
  id : FunctionId
  /-- The name: a letter `L`, the file, and the path of enclosing functions. -/
  name : String
  file : Option String := none
  thisVar : VarId
  /-- The variables that hold the arguments. -/
  params : List VarId := []
  instructions : List Instruction := []
  positions : PositionTable := .empty
deriving DecidableEq, Repr

def signatureTail : String := ".do()LRoot;"

namespace FunctionBody

def instruction? (f : FunctionBody) (pc : Nat) : Option Instruction := f.instructions[pc]?

def callAt? (f : FunctionBody) (pc : Nat) : Option Invocation :=
  (f.instruction? pc).bind Instruction.call?

def callSites (f : FunctionBody) : List (Nat × Invocation) :=
  f.instructions.zipIdx.filterMap fun (i, pc) => i.call?.map fun call => (pc, call)

def position? (f : FunctionBody) (pc : Nat) : Option Position := f.positions.find? pc

/-- The signature printed for calls of the function: the name without its leading letters `L`. -/
def signature (f : FunctionBody) : String :=
  String.ofList (f.name.toList.dropWhile (· = 'L')) ++ signatureTail

def text (f : FunctionBody) : String := "<Code body of function " ++ f.name ++ ">"

end FunctionBody

structure Program where
  functions : List FunctionBody := []
  entryPoints : List FunctionId := []
deriving DecidableEq, Repr

namespace Program

def empty : Program := {}

instance : Inhabited Program := ⟨empty⟩

def function? (p : Program) (id : FunctionId) : Option FunctionBody := p.functions[id.toNat]?

def functionNamed? (p : Program) (name : String) : Option FunctionBody :=
  p.functions.find? fun f => decide (f.name = name)

def size (p : Program) : Nat := p.functions.length

def instructionCount (p : Program) : Nat := sumOver (·.instructions.length) p.functions

def description (p : Program) : String :=
  "in-memory program (" ++ toString p.size ++ " functions)"

end Program

end CallFlow
