import CallFlow.CommandLine.Run
import CallFlow.CommandLine.Surroundings

/-! The command line over a folder of files held in memory. Everything printed is kept, and analyses
take no time, so that what the command line does is a function of its arguments and of the files. -/

namespace CallFlow

structure Path where
  /-- Whether it starts at the root. -/
  fromRoot : Bool
  /-- What stands between slashes, nothing aside. -/
  parts : List String
  /-- Whether it ends with a slash. -/
  closed : Bool
deriving DecidableEq, Repr

namespace Path

def maxBytes : Nat := 4095

def maxNameBytes : Nat := 255

/-- What stands between slashes, with the part read last, the last character first. -/
def partsFrom (part : List Char) : List Char → List String
  | [] => [String.ofList part.reverse]
  | c :: rest =>
    if c = '/' then String.ofList part.reverse :: partsFrom [] rest else partsFrom (c :: part) rest

def ofText (s : String) : Path :=
  { fromRoot := decide (s.toList.head? = some '/')
    parts := (partsFrom [] s.toList).filter fun part => decide (part ≠ "")
    closed := decide (s.toList.getLast? = some '/') }

def start (p : Path) : Directory := if p.fromRoot then .rooted [] else .folder

end Path

/-- Files by the way to spell them, the latest one first, and what was printed so far. -/
structure Folder where
  files : List (String × String) := []
  printed : String := ""
  complained : String := ""
deriving DecidableEq, Repr

namespace Folder

def empty : Folder := {}

/-- What a name stands for in a directory. -/
def entry? (d : Folder) (here : Directory) (name : String) : Option Entry :=
  match here.entry? name with
  | some e => some e
  | none => (d.files.lookup (here.spell name)).map .file

def enter (d : Folder) (here : Directory) (part : String) : Except FileFailure Directory :=
  if part = "." then .ok here
  else if part = ".." then .ok here.parent
  else if Path.maxNameBytes < part.utf8ByteSize then .error .nameTooLong
  else
    match d.entry? here part with
    | some (.directory there) => .ok there
    | some _ => .error .notDirectory
    | none => .error .notFound

def walk (d : Folder) (here : Directory) : List String → Except FileFailure Directory
  | [] => .ok here
  | part :: rest =>
    match d.enter here part with
    | .error why => .error why
    | .ok there => d.walk there rest

def resolve (d : Folder) (path : String) : Except FileFailure (Directory × String) :=
  if '\x00' ∈ path.toList then .error .nulInName
  else if path = "" then .error .notFound
  else if Path.maxBytes < path.utf8ByteSize then .error .nameTooLong
  else
    let p := Path.ofText path
    match d.walk p.start p.parts.dropLast with
    | .error why => .error why
    | .ok here =>
      match p.parts.getLast? with
      | none => .error .isDirectory
      | some name =>
        if name = "." ∨ name = ".." then .error .isDirectory else .ok (here, name)

def read (d : Folder) (path : String) : Except FileFailure String :=
  match d.resolve path with
  | .error why => .error why
  | .ok (here, name) =>
    if Path.maxNameBytes < name.utf8ByteSize then .error .nameTooLong
    else
      match d.entry? here name with
      | none => .error .notFound
      | some (.directory _) => .error .isDirectory
      | some e => if (Path.ofText path).closed then .error .notDirectory else e.text

def send (d : Folder) (text : String) : Device → Except WriteFailure Folder
  | .null | .endless | .input => .ok d
  | .full => if text = "" then .ok d else .error (.writing .noSpace)
  | .output => .ok { d with printed := d.printed ++ text }
  | .errors => .ok { d with complained := d.complained ++ text }
  | .terminal => .error (.creating .noDevice)

def put (d : Folder) (here : Directory) (name text : String) : Except WriteFailure Folder :=
  match d.entry? here name with
  | some (.directory _) => .error (.creating .isDirectory)
  | some (.system _) => .error (.creating .denied)
  | some (.device device) => d.send text device
  | some (.file _) => .ok { d with files := (here.spell name, text) :: d.files }
  | none =>
    if here.isFixed then .error (.creating .notFound)
    else .ok { d with files := (here.spell name, text) :: d.files }

/-- The folder after a text was written to the file that a path leads to. A path that ends with a
slash is taken for a directory, whatever is there. -/
def write (d : Folder) (path text : String) : Except WriteFailure Folder :=
  match d.resolve path with
  | .error why => .error (.creating why)
  | .ok (here, name) =>
    if (Path.ofText path).closed then .error (.creating .isDirectory)
    else if Path.maxNameBytes < name.utf8ByteSize then .error (.creating .nameTooLong)
    else d.put here name text

def print (d : Folder) (line : String) : Folder := { d with printed := d.printed ++ line ++ "\n" }

def withoutReturn (line : String) : String :=
  if line.toList.getLast? = some '\r' then String.ofList line.toList.dropLast else line

def printedLines (d : Folder) : List String :=
  let pieces := d.printed.splitOn "\n"
  (if pieces.getLast? = some "" then pieces.dropLast else pieces).map withoutReturn

def host : Host (StateM Folder) where
  read path := do return (← get).read path
  write path text := do
    match (← get).write path text with
    | .error why => return .error why
    | .ok d =>
      set d
      return .ok ()
  print line := modify fun d => d.print line
  analyze setup monitor := return (setup.run fun _ => monitor.reason? 0, "?")

def execute (d : Folder) (args : List String) : Ending × Folder :=
  (Arguments.execute args host).run d

end Folder

end CallFlow
