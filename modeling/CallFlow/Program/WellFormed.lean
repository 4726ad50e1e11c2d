import CallFlow.Dictionary
import CallFlow.Program.Basic
import CallFlow.Failure

/-! Which programs can be analysed. The first defect found is reported: the functions' numbers and
names come first, then the entry points, then one function after the other, definitions before uses.
-/

namespace CallFlow

def FunctionBody.definitions (f : FunctionBody) : List (VarId × DefinitionRole) :=
  (f.thisVar, .receiver) :: f.params.map (fun v => (v, .parameter))
    ++ f.instructions.zipIdx.filterMap fun (i, pc) =>
      i.defines?.map fun v => (v, .instruction pc)

def FunctionBody.defined (f : FunctionBody) : List VarId := f.definitions.map (·.1)

/-- The first definition of a variable that was defined before. -/
def firstRepeated? (seen : KeySet VarId) :
    List (VarId × DefinitionRole) → Option (VarId × DefinitionRole)
  | [] => none
  | d :: rest => if seen.contains d.1 then some d else firstRepeated? (seen.insert d.1) rest

namespace Program

/-- Checks the numbers and names of functions that stand from place `index` on behind functions of
the given names. -/
def checkPlaces (index : Nat) (names : KeySet String) :
    List FunctionBody → Except ProgramDefect Unit
  | [] => .ok ()
  | f :: rest =>
    if f.id.toNat ≠ index then .error (.misplaced f.name f.id index)
    else if names.contains f.name then .error (.duplicateName f.name)
    else checkPlaces (index + 1) (names.insert f.name) rest

def checkEntries (p : Program) : List FunctionId → Except ProgramDefect Unit
  | [] => .ok ()
  | e :: rest => if e.toNat < p.size then p.checkEntries rest else .error (.missingEntry e)

/-- Checks the function that an instruction names, then the variables it reads, of which those
given are defined. -/
def checkInstruction (p : Program) (f : FunctionBody) (defined : KeySet VarId) (pc : Nat)
    (i : Instruction) : Except ProgramDefect Unit :=
  match i.names?.filter fun g => decide (p.size ≤ g.toNat) with
  | some g => .error (.unknownFunction f.name pc g)
  | none =>
    match i.uses.find? fun v => !defined.contains v with
    | some v => .error (.undefinedUse f.name pc v)
    | none => .ok ()

def checkInstructions (p : Program) (f : FunctionBody) (defined : KeySet VarId) (pc : Nat) :
    List Instruction → Except ProgramDefect Unit
  | [] => .ok ()
  | i :: rest =>
    match p.checkInstruction f defined pc i with
    | .error defect => .error defect
    | .ok () => p.checkInstructions f defined (pc + 1) rest

def checkFunction (p : Program) (f : FunctionBody) : Except ProgramDefect Unit :=
  match firstRepeated? .empty f.definitions with
  | some (v, role) => .error (.definedTwice f.name v role)
  | none => p.checkInstructions f (.ofList f.defined) 0 f.instructions

def checkFunctions (p : Program) : List FunctionBody → Except ProgramDefect Unit
  | [] => .ok ()
  | f :: rest =>
    match p.checkFunction f with
    | .error defect => .error defect
    | .ok () => p.checkFunctions rest

/-- Accepts a well-formed program, or says what is wrong with it first. -/
def validate (p : Program) : Except ProgramDefect Unit :=
  if p.entryPoints.isEmpty then .error .noEntryPoint
  else
    match checkPlaces 0 .empty p.functions with
    | .error defect => .error defect
    | .ok () =>
      match p.checkEntries p.entryPoints with
      | .error defect => .error defect
      | .ok () => p.checkFunctions p.functions

end Program

end CallFlow
