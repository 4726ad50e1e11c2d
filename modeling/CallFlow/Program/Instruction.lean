import CallFlow.Text.Quoted
import CallFlow.Number.Shortest

/-! Instructions of a function in single-assignment form: a flat list over variables that are each
defined once. There are no branches, and values that meet are merged explicitly. -/

namespace CallFlow

/-- A function, by its place in the program. -/
abbrev FunctionId := UInt32

abbrev VarId := UInt32

inductive Literal where
  | boolean (value : Bool)
  | number (value : Binary64)
  | string (value : String)
  | null
deriving DecidableEq, Repr

def Literal.text : Literal → String
  | .boolean b => toString b
  | .number x => x.toText
  | .string s => Text.quoted s
  | .null => "null"

/-- Whether a call runs a function on a given receiver or on a fresh object. -/
inductive CallKind where
  | call
  | construct
deriving DecidableEq, Repr, Ord

structure Invocation where
  dst : Option VarId := none
  callee : VarId
  receiver : Option VarId := none
  args : List VarId := []
  kind : CallKind := .call
deriving DecidableEq, Repr

inductive Instruction where
  | newObject (dst : VarId)
  | newArray (dst : VarId)
  /-- A fresh function object. -/
  | closure (dst : VarId) (function : FunctionId)
  | constant (dst : VarId) (value : Literal)
  | copy (dst src : VarId)
  | phi (dst : VarId) (sources : List VarId)
  | getProperty (dst object : VarId) (property : String)
  | putProperty (object : VarId) (property : String) (value : VarId)
  | getDynamic (dst object key : VarId)
  /-- A write to the property that a value names. -/
  | putDynamic (object key value : VarId)
  | globalRead (dst : VarId) (name : String)
  | globalWrite (name : String) (value : VarId)
  /-- A read of a variable that an enclosing function declares. -/
  | lexicalRead (dst : VarId) (name : String) (definer : FunctionId)
  /-- A write to a variable that an enclosing function declares. -/
  | lexicalWrite (name : String) (definer : FunctionId) (value : VarId)
  | invoke (call : Invocation)
  | ret (value : Option VarId)
deriving DecidableEq, Repr

def variablesText (vs : List VarId) : String :=
  "(" ++ String.intercalate ", " (vs.map fun v => "v" ++ toString v) ++ ")"

def Invocation.text (c : Invocation) : String :=
  let target := match c.dst with
    | some dst => "v" ++ toString dst ++ " = "
    | none => ""
  let verb := match c.kind with
    | .call => "invoke"
    | .construct => "construct"
  let receiver := match c.receiver with
    | some r => " this=v" ++ toString r
    | none => ""
  target ++ verb ++ " v" ++ toString c.callee ++ receiver ++ " " ++ variablesText c.args

namespace Instruction

def defines? : Instruction → Option VarId
  | newObject dst | newArray dst | closure dst _ | constant dst _ | copy dst _ | phi dst _
  | getProperty dst _ _ | getDynamic dst _ _ | globalRead dst _ | lexicalRead dst _ _ => some dst
  | invoke call => call.dst
  | putProperty _ _ _ | putDynamic _ _ _ | globalWrite _ _ | lexicalWrite _ _ _ | ret _ => none

def uses : Instruction → List VarId
  | newObject _ | newArray _ | closure _ _ | constant _ _ | globalRead _ _
  | lexicalRead _ _ _ => []
  | copy _ src => [src]
  | phi _ sources => sources
  | getProperty _ object _ => [object]
  | putProperty object _ value => [object, value]
  | getDynamic _ object key => [object, key]
  | putDynamic object key value => [object, key, value]
  | globalWrite _ value | lexicalWrite _ _ value => [value]
  | invoke call => call.callee :: call.receiver.toList ++ call.args
  | ret value => value.toList

def names? : Instruction → Option FunctionId
  | closure _ function => some function
  | lexicalRead _ _ definer | lexicalWrite _ definer _ => some definer
  | _ => none

def call? : Instruction → Option Invocation
  | invoke call => some call
  | _ => none

def text : Instruction → String
  | newObject dst => "v" ++ toString dst ++ " = new Object"
  | newArray dst => "v" ++ toString dst ++ " = new Array"
  | closure dst function => "v" ++ toString dst ++ " = closure f" ++ toString function
  | constant dst value => "v" ++ toString dst ++ " = " ++ value.text
  | copy dst src => "v" ++ toString dst ++ " = v" ++ toString src
  | phi dst sources => "v" ++ toString dst ++ " = phi " ++ variablesText sources
  | getProperty dst object property =>
    "v" ++ toString dst ++ " = v" ++ toString object ++ "." ++ property
  | putProperty object property value =>
    "v" ++ toString object ++ "." ++ property ++ " = v" ++ toString value
  | getDynamic dst object key =>
    "v" ++ toString dst ++ " = v" ++ toString object ++ "[v" ++ toString key ++ "]"
  | putDynamic object key value =>
    "v" ++ toString object ++ "[v" ++ toString key ++ "] = v" ++ toString value
  | globalRead dst name => "v" ++ toString dst ++ " = global:" ++ name
  | globalWrite name value => "global:" ++ name ++ " = v" ++ toString value
  | lexicalRead dst name definer =>
    "v" ++ toString dst ++ " = lexical:" ++ name ++ "@f" ++ toString definer
  | lexicalWrite name definer value =>
    "lexical:" ++ name ++ "@f" ++ toString definer ++ " = v" ++ toString value
  | invoke call => call.text
  | ret (some v) => "return v" ++ toString v
  | ret none => "return"

end Instruction

end CallFlow
