import CallFlow.Number.Shortest
import CallFlow.Number.Reading

/-! JSON values with their leaves as written: numbers and strings keep the characters that the text
spells them with, and are read where somebody asks for them. So a field that nobody reads need not
have a meaning. -/

namespace CallFlow

/-- A JSON value. A number is kept as its characters, a string as the characters between its
quotes; members keep their order and may repeat. -/
inductive Json where
  | null
  | bool (value : Bool)
  | number (written : String)
  | string (written : String)
  | array (items : List Json)
  | object (members : List (String × Json))
deriving Repr, Inhabited

namespace Json

def hexDigit (n : Nat) : Char := Nat.digitChar n

def hexValue? (c : Char) : Option Nat :=
  if '0' ≤ c ∧ c ≤ '9' then some (c.toNat - '0'.toNat)
  else if 'a' ≤ c ∧ c ≤ 'f' then some (c.toNat - 'a'.toNat + 10)
  else if 'A' ≤ c ∧ c ≤ 'F' then some (c.toNat - 'A'.toNat + 10)
  else none

def hex4? (a b c d : Char) : Option Nat :=
  match hexValue? a, hexValue? b, hexValue? c, hexValue? d with
  | some a, some b, some c, some d => some (((a * 16 + b) * 16 + c) * 16 + d)
  | _, _, _, _ => none

def escapeChar (c : Char) : List Char :=
  if c = '"' then ['\\', '"']
  else if c = '\\' then ['\\', '\\']
  else if c = '\n' then ['\\', 'n']
  else if c = '\r' then ['\\', 'r']
  else if c = '\t' then ['\\', 't']
  else if c.toNat = 8 then ['\\', 'b']
  else if c.toNat = 12 then ['\\', 'f']
  else if c.toNat < 0x20 then
    ['\\', 'u', '0', '0', hexDigit (c.toNat / 16), hexDigit (c.toNat % 16)]
  else [c]

def escape (s : List Char) : List Char := s.flatMap escapeChar

def namedEscape? (c : Char) : Option Char :=
  if c = '"' then some '"'
  else if c = '\\' then some '\\'
  else if c = '/' then some '/'
  else if c = 'b' then some '\x08'
  else if c = 'f' then some '\x0c'
  else if c = 'n' then some '\n'
  else if c = 'r' then some '\r'
  else if c = 't' then some '\t'
  else none

/-- Whether a code is the first half of a pair that writes one character. -/
def isLeading (n : Nat) : Bool := decide (0xd800 ≤ n) && decide (n < 0xdc00)

/-- Whether a code is the second half of a pair that writes one character. -/
def isTrailing (n : Nat) : Bool := decide (0xdc00 ≤ n) && decide (n < 0xe000)

/-- The text of the characters between the quotes of a string, put behind the reversed text
already read; nothing if half a pair of codes stands alone. -/
def unescapeFrom (done : List Char) : List Char → Option (List Char)
  | [] => some done.reverse
  | '\\' :: 'u' :: a :: b :: c :: d :: rest =>
    match hex4? a b c d with
    | none => none
    | some n =>
      if isTrailing n then none
      else if isLeading n then
        match rest with
        | '\\' :: 'u' :: a' :: b' :: c' :: d' :: rest' =>
          match hex4? a' b' c' d' with
          | none => none
          | some n' =>
            if isTrailing n' then
              unescapeFrom
                (Char.ofNat (0x10000 + (n - 0xd800) * 0x400 + (n' - 0xdc00)) :: done) rest'
            else none
        | _ => none
      else unescapeFrom (Char.ofNat n :: done) rest
  | '\\' :: c :: rest =>
    match namedEscape? c with
    | none => none
    | some c' => unescapeFrom (c' :: done) rest
  | c :: rest => if c = '\\' then none else unescapeFrom (c :: done) rest

def unescape? (written : List Char) : Option (List Char) := unescapeFrom [] written

def text (s : String) : Json := .string (String.ofList (escape s.toList))

def nat (n : Nat) : Json := .number (toString n)

/-- The number value of a finite double-precision number, and null for any other. -/
def float (x : Binary64) : Json := if x.isFinite then .number x.toDocumentText else .null

def option {α : Type} (f : α → Json) : Option α → Json
  | none => .null
  | some a => f a

def member (name : String) (value : Json) : String × Json :=
  (String.ofList (escape name.toList), value)

def record (members : List (String × Json)) : Json :=
  .object (members.map fun (name, value) => member name value)

def asText? : Json → Option String
  | .string written => (unescape? written.toList).map String.ofList
  | _ => none

def asBool? : Json → Option Bool
  | .bool b => some b
  | _ => none

/-- The natural number below a bound, written in digits alone. -/
def asNat? (bound : Nat) : Json → Option Nat
  | .number written => Number.natural? bound written
  | _ => none

def asUInt32? (j : Json) : Option UInt32 := (j.asNat? UInt32.size).map UInt32.ofNat

def asFloat? : Json → Option Binary64
  | .number written => Number.read? written
  | _ => none

def asList? {α : Type} (f : Json → Option α) : Json → Option (List α)
  | .array items => items.mapM f
  | _ => none

def asOption? {α : Type} (f : Json → Option α) : Json → Option (Option α)
  | .null => some none
  | j => (f j).map some

mutual

/-- Whether every leaf has a value and every name a text, with containers at most `depth` deep. A
natural number of 64 bits is a value as it stands, without rounding. -/
def isReadable (depth : Nat) : Json → Bool
  | .null => true
  | .bool _ => true
  | .number written =>
    (Number.natural? UInt64.size written).isSome || (Number.read? written).isSome
  | .string written => (unescape? written.toList).isSome
  | .array items =>
    match depth with
    | 0 => false
    | d + 1 => areReadable d items
  | .object members =>
    match depth with
    | 0 => false
    | d + 1 => membersReadable d members

def areReadable (depth : Nat) : List Json → Bool
  | [] => true
  | j :: rest => j.isReadable depth && areReadable depth rest

def membersReadable (depth : Nat) : List (String × Json) → Bool
  | [] => true
  | (name, j) :: rest =>
    (unescape? name.toList).isSome && (j.isReadable depth && membersReadable depth rest)

end

end Json

end CallFlow
