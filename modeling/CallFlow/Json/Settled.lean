import CallFlow.Json.Record

/-! Values that have been read as a whole. A document that is given as a value is the text written
for that value, so a number that is no integer is rounded once for the value and once for the
document. -/

namespace CallFlow.Json

def settledNumber? (written : String) : Option Json :=
  let (negative, digits) := match written.toList with
    | '-' :: ds => (true, String.ofList ds)
    | _ => (false, written)
  let bound := if negative then Nat.pow 2 63 + 1 else UInt64.size
  match Number.natural? bound digits with
  | some n =>
    if negative && n == 0 then some (.number Binary64.zero.neg.toDocumentText)
    else some (.number written)
  | none => (Number.read? written).map .float

/-- Puts a member behind others, in place of one with the same name. -/
def lastWins (members : List (String × Json)) (m : String × Json) : List (String × Json) :=
  members.filter (fun n => decide (n.1 ≠ m.1)) ++ [m]

mutual

/-- What is left of a value once it has been read as a whole; nothing if a leaf has no value. -/
def settled? : Json → Option Json
  | .null => some .null
  | .bool b => some (.bool b)
  | .number written => settledNumber? written
  | .string written => (unescape? written.toList).map fun cs => .text (String.ofList cs)
  | .array items => (settledItems? items).map .array
  | .object members => (settledMembers? members).map fun ms => .object (ms.foldl lastWins [])

def settledItems? : List Json → Option (List Json)
  | [] => some []
  | j :: rest =>
    match settled? j, settledItems? rest with
    | some j, some js => some (j :: js)
    | _, _ => none

def settledMembers? : List (String × Json) → Option (List (String × Json))
  | [] => some []
  | (name, j) :: rest =>
    match unescape? name.toList, settled? j, settledMembers? rest with
    | some cs, some j, some ms => some (member (String.ofList cs) j :: ms)
    | _, _, _ => none

end

end CallFlow.Json
