import CallFlow.Number.Reading

/-! Values of configuration files: mappings and scalars. A scalar keeps the way it was written,
since only one without quotes can mean a number, a truth value or nothing at all. Aliases are
followed only when the whole document has been read. -/

namespace CallFlow

namespace Yaml

inductive Style where
  | plain
  | quoted
  | literal
  /-- A block that folds its lines into one. -/
  | folded
deriving DecidableEq, Repr

/-- A tag by its octets, which need not spell a text. -/
abbrev Tag := List UInt8

def Tag.ofText (s : String) : Tag := s.toUTF8.toList

/-- What the tags of the notation itself begin with. -/
def Tag.core : Tag := Tag.ofText "tag:yaml.org,2002:"

def Tag.null : Tag := Tag.core ++ Tag.ofText "null"

def Tag.bool : Tag := Tag.core ++ Tag.ofText "bool"

def Tag.int : Tag := Tag.core ++ Tag.ofText "int"

/-- The word that a tag of a file's own gives: what follows its mark, or the mark if nothing
does. -/
def Tag.word? (t : Tag) : Option String :=
  match t with
  | [] => none
  | mark :: rest =>
    if mark = '!'.toNat.toUInt8 then
      String.fromUTF8? ⟨(if rest.isEmpty then t else rest).toArray⟩
    else none

end Yaml

inductive Yaml where
  | scalar (text : String) (style : Yaml.Style) (tag : Option Yaml.Tag)
  | mapping (entries : List (Yaml × Yaml))
  | anchored (anchor : Nat) (value : Yaml)
  | alias (anchor : Nat)
deriving Repr, Inhabited

namespace Yaml

def nothing : Yaml := .scalar "" .plain none

def nullWords : List String := ["~", "null", "Null", "NULL"]

def asText? : Yaml → Option String
  | .scalar text _ _ => some text
  | _ => none

/-- The word for one of several cases: the text of a scalar, or a tag of the file's own before a
scalar that stands for nothing. -/
def asWord? : Yaml → Option String
  | .scalar text style tag =>
    match tag.bind Tag.word? with
    | none => some text
    | some word =>
      if style = .plain ∧ (text = "" ∨ text ∈ nullWords) then some word else none
  | _ => none

/-- The text that can mean a number or a truth value: one without quotes, or a block with the tag
for that meaning. -/
def meaning? (meant : Tag) : Yaml → Option String
  | .scalar text style tag =>
    if style = .plain ∨ (style = .literal ∧ tag = some meant) then some text else none
  | _ => none

def asBool? (y : Yaml) : Option Bool :=
  match y.meaning? Tag.bool with
  | none => none
  | some text =>
    if text ∈ ["true", "True", "TRUE"] then some true
    else if text ∈ ["false", "False", "FALSE"] then some false
    else none

def digit? (base : Nat) (c : Char) : Option Nat :=
  let value :=
    if '0' ≤ c ∧ c ≤ '9' then c.toNat - '0'.toNat
    else if 'a' ≤ c ∧ c ≤ 'f' then c.toNat - 'a'.toNat + 10
    else if 'A' ≤ c ∧ c ≤ 'F' then c.toNat - 'A'.toNat + 10
    else base
  if value < base then some value else none

def digits? (base : Nat) : List Char → Option Nat
  | [] => none
  | cs => (cs.mapM (digit? base)).map fun ds => ds.foldl (fun n d => n * base + d) 0

/-- The natural number that a word writes: digits that do not start with a needless zero, or `0x`,
`0o` or `0b` and digits of that base, behind an optional plus. -/
def natural? (cs : List Char) : Option Nat :=
  match if cs.head? = some '+' then cs.tail else cs with
  | '0' :: 'x' :: ds => digits? 16 ds
  | '0' :: 'o' :: ds => digits? 8 ds
  | '0' :: 'b' :: ds => digits? 2 ds
  | '0' :: _ :: _ => none
  | ds => digits? 10 ds

def asNat? (bound : Nat) (y : Yaml) : Option Nat :=
  match y.meaning? Tag.int with
  | none => none
  | some text => (natural? text.toList).filter fun n => decide (n < bound)

/-- The value read by `f`, or nothing for the absence of one. A tag says whether there is a value:
before the one for absence only a word for it may stand, before any other nothing means absence. -/
def asOption? {α : Type} (f : Yaml → Option α) (y : Yaml) : Option (Option α) :=
  match y with
  | .scalar text .plain none =>
    if text = "" ∨ text ∈ nullWords then some none else (f y).map some
  | .scalar text .plain (some tag) =>
    if tag = Tag.null then if text ∈ nullWords then some none else none
    else (f y).map some
  | y => (f y).map some

mutual

def anchors : Yaml → List (Nat × Yaml)
  | .scalar _ _ _ => []
  | .mapping entries => anchorsOfEntries entries
  | .anchored n y => (n, y) :: y.anchors
  | .alias _ => []

def anchorsOfEntries : List (Yaml × Yaml) → List (Nat × Yaml)
  | [] => []
  | (key, y) :: rest => key.anchors ++ y.anchors ++ anchorsOfEntries rest

end

/-- A value with all anchors that its aliases can name. -/
structure Document where
  root : Yaml
  /-- The anchors with what they stand for, the last one first. -/
  anchored : List (Nat × Yaml)

namespace Document

def ofRoot (y : Yaml) : Document := ⟨y, y.anchors.reverse⟩

def follow (d : Document) : Yaml → Yaml
  | .anchored _ y => y
  | .alias n => (d.anchored.lookup n).getD (.alias n)
  | y => y

def entry? (d : Document) (entry : Yaml × Yaml) : Option (String × Yaml) :=
  (d.follow entry.1).asText?.map fun key => (key, d.follow entry.2)

/-- The entries of a mapping, if its keys are among `known` and none of them occurs twice. Where
nothing is written there are no entries. -/
def entries? (d : Document) (known : List String) : Yaml → Option (List (String × Yaml))
  | .mapping entries =>
    match entries.mapM d.entry? with
    | none => none
    | some named =>
      if named.all (fun e => decide (e.1 ∈ known)) && decide (named.map (·.1)).Nodup then
        some named
      else none
  | .scalar text .plain _ => if text = "" then some [] else none
  | _ => none

end Document

end Yaml

end CallFlow
