import CallFlow.Program.WellFormed

/-! Assembling a program in memory. Functions are declared, and their bodies defined, in any order.
A body hands out fresh variables from 1 on; a position given for the next instruction stays with
whatever instruction comes next. -/

namespace CallFlow

structure BodyAssembly where
  /-- The variable handed out next. -/
  next : VarId := 1
  params : List VarId := []
  instructions : List Instruction := []
  positions : List PositionEntry := []
  /-- The position of the next instruction. -/
  pending : Option Position := none
deriving DecidableEq, Repr

namespace BodyAssembly

def empty : BodyAssembly := {}

instance : Inhabited BodyAssembly := ⟨empty⟩

def thisVar : VarId := 0

def fresh (b : BodyAssembly) : VarId × BodyAssembly := (b.next, { b with next := b.next + 1 })

def emit (b : BodyAssembly) (i : Instruction) : BodyAssembly :=
  let b := match b.pending with
    | some p =>
      { b with
        pending := none
        positions := b.positions ++ [(UInt32.ofNat b.instructions.length, p)] }
    | none => b
  { b with instructions := b.instructions ++ [i] }

def define (b : BodyAssembly) (i : VarId → Instruction) : VarId × BodyAssembly :=
  (b.fresh.1, b.fresh.2.emit (i b.fresh.1))

def param (b : BodyAssembly) : VarId × BodyAssembly :=
  (b.fresh.1, { b.fresh.2 with params := b.params ++ [b.fresh.1] })

def place (b : BodyAssembly) (line column : UInt32) : BodyAssembly :=
  { b with pending := some ⟨line, column⟩ }

def newObject (b : BodyAssembly) : VarId × BodyAssembly := b.define .newObject

def newArray (b : BodyAssembly) : VarId × BodyAssembly := b.define .newArray

def closure (b : BodyAssembly) (f : FunctionId) : VarId × BodyAssembly :=
  b.define fun v => .closure v f

def constant (b : BodyAssembly) (value : Literal) : VarId × BodyAssembly :=
  b.define fun v => .constant v value

def copy (b : BodyAssembly) (src : VarId) : VarId × BodyAssembly := b.define fun v => .copy v src

def phi (b : BodyAssembly) (sources : List VarId) : VarId × BodyAssembly :=
  b.define fun v => .phi v sources

def get (b : BodyAssembly) (object : VarId) (property : String) : VarId × BodyAssembly :=
  b.define fun v => .getProperty v object property

def put (b : BodyAssembly) (object : VarId) (property : String) (value : VarId) : BodyAssembly :=
  b.emit (.putProperty object property value)

def getDynamic (b : BodyAssembly) (object key : VarId) : VarId × BodyAssembly :=
  b.define fun v => .getDynamic v object key

def putDynamic (b : BodyAssembly) (object key value : VarId) : BodyAssembly :=
  b.emit (.putDynamic object key value)

def globalRead (b : BodyAssembly) (name : String) : VarId × BodyAssembly :=
  b.define fun v => .globalRead v name

def globalWrite (b : BodyAssembly) (name : String) (value : VarId) : BodyAssembly :=
  b.emit (.globalWrite name value)

def lexicalRead (b : BodyAssembly) (definer : FunctionId) (name : String) :
    VarId × BodyAssembly :=
  b.define fun v => .lexicalRead v name definer

def lexicalWrite (b : BodyAssembly) (definer : FunctionId) (name : String) (value : VarId) :
    BodyAssembly :=
  b.emit (.lexicalWrite name definer value)

def invoke (b : BodyAssembly) (kind : CallKind) (callee : VarId) (receiver : Option VarId)
    (args : List VarId) : VarId × BodyAssembly :=
  b.define fun v => .invoke ⟨some v, callee, receiver, args, kind⟩

def call (b : BodyAssembly) (callee : VarId) (args : List VarId) : VarId × BodyAssembly :=
  b.invoke .call callee none args

def callMethod (b : BodyAssembly) (callee receiver : VarId) (args : List VarId) :
    VarId × BodyAssembly :=
  b.invoke .call callee (some receiver) args

/-- A call of a property of the receiver, with the read of the property before it. -/
def callProperty (b : BodyAssembly) (receiver : VarId) (property : String) (args : List VarId) :
    VarId × BodyAssembly :=
  (b.get receiver property).2.callMethod (b.get receiver property).1 receiver args

def construct (b : BodyAssembly) (callee : VarId) (args : List VarId) : VarId × BodyAssembly :=
  b.invoke .construct callee none args

def ret (b : BodyAssembly) (value : Option VarId) : BodyAssembly := b.emit (.ret value)

end BodyAssembly

structure Assembly where
  file : String
  functions : List FunctionBody := []
  entryPoints : List FunctionId := []
deriving DecidableEq, Repr

namespace Assembly

def ofFile (file : String) : Assembly := { file }

def push (a : Assembly) (name : String) : FunctionId × Assembly :=
  let id := UInt32.ofNat a.functions.length
  (id, { a with
    functions := a.functions ++ [{ id, name, file := some a.file, thisVar := 0 }] })

/-- Declares the script of the file and makes it an entry point. -/
def script (a : Assembly) : FunctionId × Assembly :=
  let (id, a) := a.push ("L" ++ a.file)
  (id, { a with entryPoints := a.entryPoints ++ [id] })

def declare (a : Assembly) (path : String) : FunctionId × Assembly :=
  a.push ("L" ++ a.file ++ "/" ++ path)

def entry (a : Assembly) (f : FunctionId) : Assembly :=
  if f ∈ a.entryPoints then a else { a with entryPoints := a.entryPoints ++ [f] }

/-- Gives a declared function a body in place of the one it had; nothing if no such function was
declared. -/
def define? (a : Assembly) (f : FunctionId) (b : BodyAssembly) : Option Assembly :=
  if f.toNat < a.functions.length then
    some { a with
      functions := a.functions.modify f.toNat fun g =>
        { g with
          thisVar := BodyAssembly.thisVar
          params := b.params
          instructions := b.instructions
          positions := .ofList b.positions } }
  else none

def program (a : Assembly) : Program := ⟨a.functions, a.entryPoints⟩

def build (a : Assembly) : Except ProgramDefect Program :=
  match a.program.validate with
  | .error defect => .error defect
  | .ok () => .ok a.program

end Assembly

end CallFlow
