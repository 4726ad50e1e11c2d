import CallFlow.Json.Basic

/-! Records in documents: an object in which a known field stands at most once, or an array of the
fields in their order. A word for one of several cases is a string, or an object of one member. -/

namespace CallFlow.Json

structure Fields where
  /-- Whether the record is an array, so that a field without a default cannot be left out. -/
  ordered : Bool
  given : List (String × Json)
deriving Repr

def named? : List (String × Json) → Option (List (String × Json))
  | [] => some []
  | (name, j) :: rest =>
    match unescape? name.toList with
    | none => none
    | some s => (named? rest).map ((String.ofList s, j) :: ·)

def distinctNames : List (String × Json) → Bool
  | [] => true
  | (name, _) :: rest => !rest.any (fun m => decide (m.1 = name)) && distinctNames rest

/-- The given fields of a record whose fields are `known`; nothing if the value is no such record.
Fields that are not known are refused if the record is `strict`. -/
def fields? (known : List String) (strict : Bool) : Json → Option Fields
  | .object members =>
    match named? members with
    | none => none
    | some members =>
      let given := members.filter fun m => decide (m.1 ∈ known)
      if distinctNames given && !(strict && given.length != members.length) then
        some ⟨false, given⟩
      else none
  | .array items =>
    if items.length ≤ known.length then some ⟨true, known.zip items⟩ else none
  | _ => none

/-- The given fields of what a case holds, which is never written as an array. -/
def caseFields? (known : List String) : Json → Option Fields
  | .object members => (Json.object members).fields? known false
  | _ => none

namespace Fields

def get? (f : Fields) (name : String) : Option Json := f.given.lookup name

def required {α : Type} (f : Fields) (name : String) (read : Json → Option α) : Option α :=
  (f.get? name).bind read

def defaulted {α : Type} (f : Fields) (name : String) (read : Json → Option α) (default : α) :
    Option α :=
  match f.get? name with
  | none => some default
  | some j => read j

/-- The value of a field that may be null, and may be left out of an object. -/
def nullable {α : Type} (f : Fields) (name : String) (read : Json → Option α) :
    Option (Option α) :=
  match f.get? name with
  | none => if f.ordered then none else some none
  | some j => j.asOption? read

end Fields

def asWord? : Json → Option String
  | .string written => (Json.string written).asText?
  | .object [(name, .null)] => (unescape? name.toList).map String.ofList
  | _ => none

/-- The text of a word inside a value that is read as a whole before its fields are; there an empty
object counts as nothing, too. -/
def asInnerWord? : Json → Option String
  | .object [(name, .object [])] => (unescape? name.toList).map String.ofList
  | j => j.asWord?

/-- The name of one of several cases and what it holds: a string, or an object of one member. -/
def variant? : Json → Option (String × Option Json)
  | .string written => (Json.string written).asText?.map fun s => (s, none)
  | .object [(name, j)] => (unescape? name.toList).map fun cs => (String.ofList cs, some j)
  | _ => none

def bare? {α : Type} (value : α) : Option Json → Option α
  | none | some .null => some value
  | some _ => none

def tagged (name : String) (j : Json) : Json := record [(name, j)]

def asIndex? (j : Json) : Option Nat := j.asUInt32?.map UInt32.toNat

end CallFlow.Json
