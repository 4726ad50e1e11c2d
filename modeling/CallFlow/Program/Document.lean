import CallFlow.Program.WellFormed
import CallFlow.Json.Record
import CallFlow.Json.Reader
import CallFlow.Json.Writer

/-! Program documents. What is written has every field; what is read may leave out those with a
default and may hold others. An instruction is an object whose field `op` says its form. -/

namespace CallFlow

/-- The most containers that may enclose one another in a document. -/
def nestingLimit : Nat := 127

/-- The containers that enclose an instruction of a program document: the document, its list of
functions, a function, and its list of instructions. -/
def instructionDepth : Nat := 4

namespace Position

def ofJson? (j : Json) : Option Position := do
  let f ← j.fields? ["line", "column"] false
  let line ← f.required "line" Json.asUInt32?
  let column ← f.required "column" Json.asUInt32?
  some ⟨line, column⟩

def toJson (p : Position) : Json :=
  .record [("line", .nat p.line.toNat), ("column", .nat p.column.toNat)]

end Position

namespace PositionTable

def entry? (m : String × Json) : Option PositionEntry := do
  let pc ← Number.natural? UInt32.size m.1
  let p ← Position.ofJson? m.2
  some (UInt32.ofNat pc, p)

def ofJson? : Json → Option PositionTable
  | .object members => (members.mapM entry?).map ofList
  | _ => none

def toJson (t : PositionTable) : Json :=
  .record (t.entries.map fun (pc, p) => (toString pc, p.toJson))

end PositionTable

namespace Literal

def ofJson? : Json → Option Literal
  | .bool b => some (.boolean b)
  | .number written => (Number.read? written).map .number
  | .string written => (Json.string written).asText?.map .string
  | .null => some .null
  | .array _ | .object _ => none

def toJson (number : Binary64 → Json) : Literal → Json
  | .boolean b => .bool b
  | .number x => number x
  | .string s => .text s
  | .null => .null

end Literal

namespace CallKind

def word : CallKind → String
  | .call => "call"
  | .construct => "construct"

def ofWord? (s : String) : Option CallKind :=
  [CallKind.call, CallKind.construct].find? fun k => decide (k.word = s)

end CallKind

namespace Instruction

def word : Instruction → String
  | newObject _ => "new_object"
  | newArray _ => "new_array"
  | closure _ _ => "closure"
  | constant _ _ => "constant"
  | copy _ _ => "copy"
  | phi _ _ => "phi"
  | getProperty _ _ _ => "get_property"
  | putProperty _ _ _ => "put_property"
  | getDynamic _ _ _ => "get_dynamic"
  | putDynamic _ _ _ => "put_dynamic"
  | globalRead _ _ => "global_read"
  | globalWrite _ _ => "global_write"
  | lexicalRead _ _ _ => "lexical_read"
  | lexicalWrite _ _ _ => "lexical_write"
  | invoke _ => "invoke"
  | ret _ => "return"

/-- The fields that an instruction of a form has, in their order. -/
def fieldsOfWord? (s : String) : Option (List String) :=
  [("new_object", ["dst"]), ("new_array", ["dst"]), ("closure", ["dst", "function"]),
    ("constant", ["dst", "value"]), ("copy", ["dst", "src"]), ("phi", ["dst", "sources"]),
    ("get_property", ["dst", "object", "property"]),
    ("put_property", ["object", "property", "value"]),
    ("get_dynamic", ["dst", "object", "key"]), ("put_dynamic", ["object", "key", "value"]),
    ("global_read", ["dst", "name"]), ("global_write", ["name", "value"]),
    ("lexical_read", ["dst", "name", "definer"]),
    ("lexical_write", ["name", "definer", "value"]),
    ("invoke", ["dst", "callee", "receiver", "args", "kind"]), ("return", ["value"])].lookup s

def ofFields? (op : String) (f : Json.Fields) : Option Instruction :=
  let var (name : String) : Option VarId := f.required name Json.asUInt32?
  let function (name : String) : Option FunctionId := f.required name Json.asUInt32?
  let name (name : String) : Option String := f.required name Json.asText?
  match op with
  | "new_object" => do some (newObject (← var "dst"))
  | "new_array" => do some (newArray (← var "dst"))
  | "closure" => do some (closure (← var "dst") (← function "function"))
  | "constant" => do some (constant (← var "dst") (← f.required "value" Literal.ofJson?))
  | "copy" => do some (copy (← var "dst") (← var "src"))
  | "phi" => do
    some (phi (← var "dst") (← f.required "sources" (Json.asList? Json.asUInt32?)))
  | "get_property" => do
    some (getProperty (← var "dst") (← var "object") (← name "property"))
  | "put_property" => do
    some (putProperty (← var "object") (← name "property") (← var "value"))
  | "get_dynamic" => do some (getDynamic (← var "dst") (← var "object") (← var "key"))
  | "put_dynamic" => do some (putDynamic (← var "object") (← var "key") (← var "value"))
  | "global_read" => do some (globalRead (← var "dst") (← name "name"))
  | "global_write" => do some (globalWrite (← name "name") (← var "value"))
  | "lexical_read" => do
    some (lexicalRead (← var "dst") (← name "name") (← function "definer"))
  | "lexical_write" => do
    some (lexicalWrite (← name "name") (← function "definer") (← var "value"))
  | "invoke" => do
    let dst ← f.defaulted "dst" (Json.asOption? Json.asUInt32?) none
    let callee ← var "callee"
    let receiver ← f.defaulted "receiver" (Json.asOption? Json.asUInt32?) none
    let args ← f.defaulted "args" (Json.asList? Json.asUInt32?) []
    let kind ← f.defaulted "kind" (fun j => j.asInnerWord?.bind CallKind.ofWord?) .call
    some (invoke ⟨dst, callee, receiver, args, kind⟩)
  | "return" => do some (ret (← f.nullable "value" Json.asUInt32?))
  | _ => none

/-- The form of an instruction and the value that holds its fields. In an object the form stands
under `op`, which occurs once; in an array it comes first. -/
def split? : Json → Option (String × Json)
  | .object members => do
    let f ← (Json.object members).fields? ["op"] false
    let op ← f.required "op" Json.asText?
    let fields ← Json.named? members
    some (op, .object ((members.zip fields).filterMap fun (m, n) =>
      if n.1 = "op" then none else some m))
  | .array (op :: items) => do some (← op.asText?, .array items)
  | _ => none

def ofJson? (depth : Nat) (j : Json) : Option Instruction :=
  if j.isReadable (nestingLimit - depth) then do
    let (op, fields) ← split? j
    let known ← fieldsOfWord? op
    ofFields? op (← fields.fields? known false)
  else none

def varJson (v : VarId) : Json := .nat v.toNat

/-- The fields of an instruction in a document, with numbers written by `number`. -/
def members (number : Binary64 → Json) : Instruction → List (String × Json)
  | newObject dst => [("dst", varJson dst)]
  | newArray dst => [("dst", varJson dst)]
  | closure dst function => [("dst", varJson dst), ("function", .nat function.toNat)]
  | constant dst value => [("dst", varJson dst), ("value", value.toJson number)]
  | copy dst src => [("dst", varJson dst), ("src", varJson src)]
  | phi dst sources => [("dst", varJson dst), ("sources", .array (sources.map varJson))]
  | getProperty dst object property =>
    [("dst", varJson dst), ("object", varJson object), ("property", .text property)]
  | putProperty object property value =>
    [("object", varJson object), ("property", .text property), ("value", varJson value)]
  | getDynamic dst object key =>
    [("dst", varJson dst), ("object", varJson object), ("key", varJson key)]
  | putDynamic object key value =>
    [("object", varJson object), ("key", varJson key), ("value", varJson value)]
  | globalRead dst name => [("dst", varJson dst), ("name", .text name)]
  | globalWrite name value => [("name", .text name), ("value", varJson value)]
  | lexicalRead dst name definer =>
    [("dst", varJson dst), ("name", .text name), ("definer", .nat definer.toNat)]
  | lexicalWrite name definer value =>
    [("name", .text name), ("definer", .nat definer.toNat), ("value", varJson value)]
  | invoke call =>
    [("dst", .option varJson call.dst), ("callee", varJson call.callee),
      ("receiver", .option varJson call.receiver), ("args", .array (call.args.map varJson)),
      ("kind", .text call.kind.word)]
  | ret value => [("value", .option varJson value)]

def toJson (number : Binary64 → Json) (i : Instruction) : Json :=
  .record (("op", .text i.word) :: i.members number)

end Instruction

namespace FunctionBody

def ofJson? (j : Json) : Option FunctionBody := do
  let f ← j.fields?
    ["id", "name", "file", "this_param", "params", "instructions", "positions"] false
  let id ← f.required "id" Json.asUInt32?
  let name ← f.required "name" Json.asText?
  let file ← f.defaulted "file" (Json.asOption? Json.asText?) none
  let thisVar ← f.required "this_param" Json.asUInt32?
  let params ← f.defaulted "params" (Json.asList? Json.asUInt32?) []
  let instructions ←
    f.defaulted "instructions" (Json.asList? (Instruction.ofJson? instructionDepth)) []
  let positions ← f.defaulted "positions" PositionTable.ofJson? .empty
  some { id, name, file, thisVar, params, instructions, positions }

def toJson (number : Binary64 → Json) (f : FunctionBody) : Json :=
  .record [("id", .nat f.id.toNat), ("name", .text f.name), ("file", .option .text f.file),
    ("this_param", .nat f.thisVar.toNat), ("params", .array (f.params.map Instruction.varJson)),
    ("instructions", .array (f.instructions.map (·.toJson number))),
    ("positions", f.positions.toJson)]

end FunctionBody

namespace Program

def ofJson? (j : Json) : Option Program := do
  let f ← j.fields? ["functions", "entry_points"] false
  let functions ← f.required "functions" (Json.asList? FunctionBody.ofJson?)
  let entryPoints ← f.required "entry_points" (Json.asList? Json.asUInt32?)
  some { functions, entryPoints }

def toJson (number : Binary64 → Json) (p : Program) : Json :=
  .record [("functions", .array (p.functions.map (·.toJson number))),
    ("entry_points", .array (p.entryPoints.map fun e => .nat e.toNat))]

def render (p : Program) : String := (p.toJson Json.float).render

def parse? (text : String) : Option Program := (Json.parse? text).bind ofJson?

/-- The well-formed program of a document, or why there is none. -/
def load (text : String) : Except Failure Program :=
  match parse? text with
  | none => .error .document
  | some p =>
    match p.validate with
    | .error defect => .error (.program defect)
    | .ok () => .ok p

end Program

end CallFlow
