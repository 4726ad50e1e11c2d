import CallFlow.Failure

/-! Complaints of the command line: what was being done, and the causes, each followed by the one
that it wraps. A single cause stands alone; several are numbered. -/

namespace CallFlow

namespace FileFailure

/-- The causes of a failure that wraps another one, outermost first. -/
def causes (why : FileFailure) : List String := ["IO error: " ++ why.message, why.message]

end FileFailure

def OptionFailure.causes : OptionFailure → List String
  | .unreadable why => why.causes
  | .malformed => [OptionFailure.malformed.message, "not a configuration document"]
  | why => [why.message]

def Failure.causes : Failure → List String
  | .file why => why.causes
  | .document => [Failure.document.message, "not a program document"]
  | .program defect => [(Failure.program defect).message]
  | .options why => (Failure.options why).message :: why.causes

/-- What was being done, and why it failed. -/
structure Complaint where
  context : String
  causes : List String
deriving DecidableEq, Repr

namespace Complaint

/-- A text whose lines after the first are indented. -/
def indented (indent : String) (s : String) : String :=
  String.ofList (s.toList.flatMap fun c => if c = '\n' then '\n' :: indent.toList else [c])

def numberText (n : Nat) : String :=
  let s := toString n
  String.ofList (List.replicate (5 - s.length) ' ') ++ s ++ ": "

def causeLines : List String → List String
  | [cause] => ["    " ++ indented "    " cause]
  | causes => causes.zipIdx.map fun (cause, n) => numberText n ++ indented "       " cause

def text (c : Complaint) : String :=
  "Error: " ++ c.context ++
    (if c.causes.isEmpty then ""
    else "\n\nCaused by:\n" ++ String.intercalate "\n" (causeLines c.causes))

end Complaint

end CallFlow
