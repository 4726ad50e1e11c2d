import CallFlow.Yaml.Scalar

/-! The parts that a configuration file is made of. A tag is a handle, which stands for what tags
begin with, and a suffix, in which an octet may be written as two digits behind a percent sign. -/

namespace CallFlow.Yaml

inductive Token where
  | version (major minor : Nat)
  /-- What tags with a handle begin with. -/
  | handle (name : String) (lead : Tag)
  | documentStart
  | documentEnd
  | blockStart
  | blockEnd
  | openBrace
  | closeBrace
  | comma
  | key
  | value
  | anchor (name : String)
  | alias (name : String)
  | tag (handle : String) (suffix : Tag)
  | scalar (text : String) (style : Style)
deriving DecidableEq, Repr

def anchorName? (c : Cursor) : Option (String × Cursor) :=
  let (name, c) := c.span isNameChar
  let ends := startsBlank c.rest
    || c.head?.any (· ∈ ['?', ':', ',', ']', '\x7d', '%', '@', '\x60'])
  if name.isEmpty || !ends then none else some (String.ofList name, c)

/-- Whether a character may stand in a tag; a comma and square brackets only where the tag is
`delimited`. -/
def isTagChar (delimited : Bool) (c : Char) : Bool :=
  isNameChar c
    || c ∈ [';', '/', '?', ':', '@', '&', '=', '+', '$', '.', '%', '!', '~', '*', '\'', '(', ')']
    || (delimited && c ∈ [',', '[', ']'])

def octetsDue? (octet : Nat) : Option Nat :=
  if octet < 0x80 then some 0
  else if octet / 0x20 = 0x06 then some 1
  else if octet / 0x10 = 0x0e then some 2
  else if octet / 0x08 = 0x1e then some 3
  else none

/-- The octets that the characters of a tag write, when `due` octets of a character are still to be
written by their digits. -/
def octets? (due : Nat) : List Char → Option Tag
  | [] => if due = 0 then some [] else none
  | '%' :: a :: b :: r =>
    match digits? 16 [a, b] with
    | none => none
    | some n =>
      let left := match due with
        | 0 => octetsDue? n
        | due + 1 => if n / 0x40 = 0x02 then some due else none
      match left with
      | none => none
      | some due => (octets? due r).map (n.toUInt8 :: ·)
  | c :: r =>
    if c = '%' ∨ due ≠ 0 then none else (octets? 0 r).map (c.toNat.toUInt8 :: ·)

/-- The octets of a part of a tag; a zero ends them. -/
def tagPart? (cs : List Char) : Option Tag := (octets? 0 cs).map (·.takeWhile (· ≠ 0))

def closedHandle? (c : Cursor) : Option (String × Cursor) :=
  let (name, c) := c.next.span isNameChar
  if c.head? = some '!' then some ("!" ++ String.ofList name ++ "!", c.next) else none

/-- A tag, and the place behind it: between angle brackets, behind a handle, or behind a single
mark. The single mark alone is a tag, too. -/
def openTag? (c : Cursor) : Option (Token × Cursor) :=
  if c.next.head? = some '<' then
    let (cs, c) := (c.drop 2).span (isTagChar true)
    if cs.isEmpty || c.head? != some '>' then none
    else (tagPart? cs).map fun t => (.tag "" t, c.next)
  else
    match closedHandle? c with
    | some (handle, c) =>
      let (cs, c) := c.span (isTagChar false)
      if cs.isEmpty then none else (tagPart? cs).map fun t => (.tag handle t, c)
    | none =>
      let (cs, c) := c.next.span (isTagChar false)
      (tagPart? cs).map fun t =>
        (if t.isEmpty then .tag "" (Tag.ofText "!") else .tag "!" t, c)

def tag? (inFlow : Bool) (c : Cursor) : Option (Token × Cursor) :=
  (openTag? c).filter fun (_, c) => startsBlank c.rest || (inFlow && c.head? == some ',')

def shortNumber? (c : Cursor) : Option (Nat × Cursor) :=
  let (ds, c) := c.span Number.isDigit
  if ds.isEmpty || decide (9 < ds.length) then none else some (Number.valueOfDigits ds, c)

def version? (c : Cursor) : Option (Token × Cursor) :=
  match shortNumber? c with
  | none => none
  | some (major, c) =>
    if c.head? = some '.' then (shortNumber? c.next).map fun (minor, c) => (.version major minor, c)
    else none

def handle? (c : Cursor) : Option (Token × Cursor) :=
  if c.head? = some '!' then
    let (handle, c) := (closedHandle? c).getD ("!", c.next)
    let (blanks, c) := c.span isBlank
    let (cs, c) := c.span (isTagChar true)
    if blanks.isEmpty || cs.isEmpty || !startsBlank c.rest then none
    else (tagPart? cs).map fun t => (.handle handle t, c)
  else none

def directive? (c : Cursor) : Option (Token × Cursor) :=
  let (name, c) := c.next.span isNameChar
  let found :=
    if !startsBlank c.rest then none
    else if name = ['Y', 'A', 'M', 'L'] then version? c.skipBlanks
    else if name = ['T', 'A', 'G'] then handle? c.skipBlanks
    else none
  match found with
  | none => none
  | some (t, c) => c.nextLine?.map fun c => (t, c)

end CallFlow.Yaml
