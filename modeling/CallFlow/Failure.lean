import CallFlow.Text.EditDistance

/-! Why an analysis is refused. Each cause is a value of its own, and the wording of the messages is
in one function per type. -/

namespace CallFlow

inductive FileFailure where
  | notFound
  | isDirectory
  | notDirectory
  | denied
  | nameTooLong
  /-- A path that holds a null character, which no file name can. -/
  | nulInName
  /-- A file whose bytes are no text. -/
  | notText
  | noSpace
  /-- A file with more to read than can be held. -/
  | outOfMemory
  | noDevice
  | other (text : String)
deriving DecidableEq, Repr

def FileFailure.message : FileFailure → String
  | .notFound => "No such file or directory (os error 2)"
  | .isDirectory => "Is a directory (os error 21)"
  | .notDirectory => "Not a directory (os error 20)"
  | .denied => "Permission denied (os error 13)"
  | .nameTooLong => "File name too long (os error 36)"
  | .nulInName => "file name contained an unexpected NUL byte"
  | .notText => "stream did not contain valid UTF-8"
  | .noSpace => "No space left on device (os error 28)"
  | .outOfMemory => "out of memory"
  | .noDevice => "No such device or address (os error 6)"
  | .other text => text

inductive WriteFailure where
  /-- The file cannot be created or opened. -/
  | creating (why : FileFailure)
  /-- The file was opened, and the text is not in it. -/
  | writing (why : FileFailure)
deriving DecidableEq, Repr

def WriteFailure.cause : WriteFailure → FileFailure
  | .creating why => why
  | .writing why => why

inductive OptionFailure where
  | zeroCeiling
  | zeroTimeout
  | negativeCeiling (value : Int)
  /-- String keys are to be resolved although string constants do not keep their values. -/
  | stringsForgotten
  | unknownWord (option text : String) (valid : List String)
  | missingVersion
  | unsupportedVersion (found : Nat)
  /-- A configuration file that cannot be read as one. -/
  | malformed
  /-- A configuration file that could not be opened. -/
  | unreadable (why : FileFailure)
deriving DecidableEq, Repr

namespace OptionFailure

def suggestion (text : String) (valid : List String) : String :=
  match Text.nearest? text valid with
  | some word => "Did you mean '" ++ word ++ "'?"
  | none => "No valid values available"

def rangeMessage (field value least most hint : String) : String :=
  "Invalid range for option '" ++ field ++ "': " ++ value ++ " not in " ++ least ++ "..=" ++ most
    ++ ". " ++ hint

def message : OptionFailure → String
  | .zeroCeiling =>
    rangeMessage "max_nodes" "0" "1" "18446744073709551615"
      "Leave the ceiling unset for an unbounded analysis"
  | .zeroTimeout =>
    rangeMessage "timeout_ms" "0" "1" "18446744073709551615"
      "Leave the timeout unset to disable it"
  | .negativeCeiling value =>
    rangeMessage "max-number-of-nodes" (toString value) "-1" "9223372036854775807"
      "Pass -1 for an unbounded analysis"
  | .stringsForgotten =>
    "Conflicting options: reflection 'string-only' needs string constants to keep their values, "
      ++ "but use_constant_specific_keys is off. Fix: enable use_constant_specific_keys or pick "
      ++ "reflection 'full'"
  | .unknownWord option text valid =>
    "Unknown value '" ++ text ++ "' for option '" ++ option ++ "'. " ++ suggestion text valid
  | .missingVersion =>
    "Missing 'version' field in configuration file. "
      ++ "Add 'version: 1' to the top of your YAML file."
  | .unsupportedVersion found =>
    "Unsupported configuration version " ++ toString found ++ ". Supported versions: 1"
  | .malformed => "YAML parsing error: not a configuration document"
  | .unreadable why => "IO error: " ++ why.message

end OptionFailure

/-- The part a variable's definition plays in a function. -/
inductive DefinitionRole where
  | receiver
  | parameter
  | instruction (pc : Nat)
deriving DecidableEq, Repr

def DefinitionRole.text : DefinitionRole → String
  | .receiver => "this"
  | .parameter => "parameter"
  | .instruction pc => "instruction " ++ toString pc

inductive ProgramDefect where
  /-- Nothing is called from outside. -/
  | noEntryPoint
  /-- A function's id is not its place. -/
  | misplaced (name : String) (id : UInt32) (index : Nat)
  | duplicateName (name : String)
  | missingEntry (id : UInt32)
  /-- A variable is defined a second time. -/
  | definedTwice (function : String) (var : UInt32) (role : DefinitionRole)
  | unknownFunction (function : String) (pc : Nat) (id : UInt32)
  /-- An instruction uses a variable that nothing defines. -/
  | undefinedUse (function : String) (pc : Nat) (var : UInt32)
deriving DecidableEq, Repr

def ProgramDefect.message : ProgramDefect → String
  | .noEntryPoint => "no entry points"
  | .misplaced name id index =>
    "function '" ++ name ++ "' has id " ++ toString id ++ " but is stored at index "
      ++ toString index
  | .duplicateName name => "duplicate function name '" ++ name ++ "'"
  | .missingEntry id => "entry point f" ++ toString id ++ " does not exist"
  | .definedTwice function var role =>
    function ++ ": v" ++ toString var ++ " defined twice (" ++ role.text ++ ")"
  | .unknownFunction function pc id =>
    function ++ ": instruction " ++ toString pc ++ " references unknown function f" ++ toString id
  | .undefinedUse function pc var =>
    function ++ ": instruction " ++ toString pc ++ " uses undefined v" ++ toString var

inductive Failure where
  | file (why : FileFailure)
  | document
  | program (defect : ProgramDefect)
  | options (why : OptionFailure)
deriving DecidableEq, Repr

namespace Failure

def isOptions : Failure → Bool
  | .options _ => true
  | _ => false

def message : Failure → String
  | .file why => "IO error: " ++ why.message
  | .document => "Parse error: not a program document"
  | .program defect => "Invalid program: " ++ defect.message
  | .options why => "Configuration error: " ++ why.message

end Failure

end CallFlow
