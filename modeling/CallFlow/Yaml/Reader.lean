import CallFlow.Yaml.Layout

/-! Reading configuration files: tokens are put together to values. A file holds at most one
document, which may begin with lines that tell how to read it. -/

namespace CallFlow.Yaml

structure AnchorNames where
  /-- The number of each name, the latest one first. -/
  numbers : List (String × Nat) := []
  /-- How many different names there are. -/
  size : Nat := 0
deriving DecidableEq, Repr

/-- Names an anchor: its number is that of the names known before, also if it is one of them. -/
def AnchorNames.name (a : AnchorNames) (name : String) : Nat × AnchorNames :=
  (a.size,
    { numbers := (name, a.size) :: a.numbers
      size := if (a.numbers.lookup name).isSome then a.size else a.size + 1 })

/-- What tags begin with, by their handles, where a document does not say otherwise. -/
def standardHandles : List (String × Tag) := [("!", Tag.ofText "!"), ("!!", Tag.core)]

structure Preamble where
  version : Option (Nat × Nat) := none
  handles : List (String × Tag) := []
deriving DecidableEq, Repr

def Preamble.isEmpty (p : Preamble) : Bool := p.version.isNone && p.handles.isEmpty

/-- The lines before a document, each kind of which may be there once, and the tokens behind them.
There are two versions of the notation. -/
def Preamble.read? (p : Preamble) : List Token → Option (Preamble × List Token)
  | .version major minor :: r =>
    if p.version.isSome ∨ major ≠ 1 ∨ (minor ≠ 1 ∧ minor ≠ 2) then none
    else { p with version := some (major, minor) }.read? r
  | .handle name lead :: r =>
    if (p.handles.lookup name).isSome then none
    else { p with handles := (name, lead) :: p.handles }.read? r
  | r => some (p, r)

def Preamble.tag? (p : Preamble) (handle : String) (suffix : Tag) : Option Tag :=
  if handle = "" then some suffix
  else ((p.handles ++ standardHandles).lookup handle).map (· ++ suffix)

structure Properties where
  anchor : Option String := none
  tag : Option Tag := none
deriving DecidableEq, Repr

def Properties.isEmpty (p : Properties) : Bool := p.anchor.isNone && p.tag.isNone

def properties? (p : Preamble) : List Token → Option (Properties × List Token)
  | .anchor name :: .tag handle suffix :: r =>
    (p.tag? handle suffix).map fun t => (⟨some name, some t⟩, r)
  | .tag handle suffix :: .anchor name :: r =>
    (p.tag? handle suffix).map fun t => (⟨some name, some t⟩, r)
  | .anchor name :: r => some (⟨some name, none⟩, r)
  | .tag handle suffix :: r => (p.tag? handle suffix).map fun t => (⟨none, some t⟩, r)
  | r => some ({}, r)

def withAnchor (anchor : Option Nat) (y : Yaml) : Yaml :=
  match anchor with
  | none => y
  | some n => .anchored n y

def AnchorNames.name? (a : AnchorNames) (anchor : Option String) : Option Nat × AnchorNames :=
  match anchor with
  | none => (none, a)
  | some name => let (n, a) := a.name name; (some n, a)

/-- Whether tokens start with a sign that ends a key or a value of a mapping: of a mapping by
indentation, or of one in braces. -/
def endsPart (inFlow isKey : Bool) : List Token → Bool
  | [] => true
  | .value :: _ => isKey || !inFlow
  | .key :: _ | .blockEnd :: _ => !inFlow
  | .comma :: _ | .closeBrace :: _ => inFlow
  | _ => false

mutual

/-- A node, the anchors named by then, and the tokens behind it. A mapping by indentation stands
only outside of braces. -/
def node? (p : Preamble) (fuel : Nat) (inFlow : Bool) (a : AnchorNames) (ts : List Token) :
    Option (Yaml × AnchorNames × List Token) :=
  match fuel with
  | 0 => none
  | fuel + 1 =>
    match ts with
    | .alias name :: r => (a.numbers.lookup name).map fun n => (.alias n, a, r)
    | ts =>
      match properties? p ts with
      | none => none
      | some (before, r) =>
        let (anchor, a) := a.name? before.anchor
        match r with
        | .scalar text style :: r =>
          some (withAnchor anchor (.scalar text style before.tag), a, r)
        | .openBrace :: r =>
          (flowEntries? p fuel true a [] r).map fun (y, rest) => (withAnchor anchor y, rest)
        | .blockStart :: r =>
          if inFlow then none
          else (blockEntries? p fuel a [] r).map fun (y, rest) => (withAnchor anchor y, rest)
        | r =>
          if before.isEmpty then none
          else some (withAnchor anchor (.scalar "" .plain before.tag), a, r)

def part? (p : Preamble) (fuel : Nat) (inFlow isKey : Bool) (a : AnchorNames) (ts : List Token) :
    Option (Yaml × AnchorNames × List Token) :=
  match fuel with
  | 0 => none
  | fuel + 1 =>
    if endsPart inFlow isKey ts then some (nothing, a, ts) else node? p fuel inFlow a ts

def value? (p : Preamble) (fuel : Nat) (inFlow : Bool) (a : AnchorNames) (ts : List Token) :
    Option (Yaml × AnchorNames × List Token) :=
  match fuel, ts with
  | 0, _ => none
  | fuel + 1, .value :: r => part? p fuel inFlow false a r
  | _, ts => some (nothing, a, ts)

/-- The entries of a mapping by indentation behind those of `done`, last one first. -/
def blockEntries? (p : Preamble) (fuel : Nat) (a : AnchorNames) (done : List (Yaml × Yaml))
    (ts : List Token) : Option (Yaml × AnchorNames × List Token) :=
  match fuel, ts with
  | 0, _ => none
  | _, .blockEnd :: r => some (.mapping done.reverse, a, r)
  | fuel + 1, .key :: r =>
    match part? p fuel false true a r with
    | none => none
    | some (key, a, r) =>
      match value? p fuel false a r with
      | none => none
      | some (y, a, r) => blockEntries? p fuel a ((key, y) :: done) r
  | _, _ => none

/-- The entries of a mapping in braces behind those of `done`, last one first. Between two of them
stands a comma, and one may stand behind the last; only the sign of a key lets a key be
missing, and a value needs the sign of its own. -/
def flowEntries? (p : Preamble) (fuel : Nat) (isFirst : Bool) (a : AnchorNames)
    (done : List (Yaml × Yaml)) (ts : List Token) : Option (Yaml × AnchorNames × List Token) :=
  match fuel, ts with
  | 0, _ => none
  | _, .closeBrace :: r => some (.mapping done.reverse, a, r)
  | fuel + 1, ts =>
    let entry := if isFirst then some ts else
      match ts with
      | .comma :: r => some r
      | _ => none
    match entry with
    | none => none
    | some (.closeBrace :: r) => some (.mapping done.reverse, a, r)
    | some (.key :: r) =>
      match part? p fuel true true a r with
      | none => none
      | some (key, a, r) =>
        match value? p fuel true a r with
        | none => none
        | some (y, a, r) => flowEntries? p fuel false a ((key, y) :: done) r
    | some r =>
      match node? p fuel true a r with
      | none => none
      | some (key, a, r) => flowEntries? p fuel false a ((key, nothing) :: done) r

end

/-- The value of a document that starts at tokens, and the tokens behind it. Behind the mark of its
start it may be missing. -/
def root? (p : Preamble) (isMarked : Bool) (ts : List Token) : Option (Yaml × List Token) :=
  match ts with
  | [] => some (nothing, [])
  | t :: r =>
    let isMissing := match t with
      | .version _ _ | .handle _ _ | .documentStart | .documentEnd => true
      | _ => false
    if isMissing then if isMarked then some (nothing, t :: r) else none
    else (node? p (3 * r.length + 6) false {} (t :: r)).map fun (y, _, r) => (y, r)

def ofTokens? (ts : List Token) : Option Yaml :=
  let found := match Preamble.read? {} ts with
    | none => none
    | some (p, .documentStart :: r) => root? p true r
    | some (p, r) => if p.isEmpty then root? p false r else none
  match found with
  | none => none
  | some (y, r) => if r.all (· = .documentEnd) then some y else none

def parse? (s : String) : Option Document :=
  if s.toList.all isAllowed then
    ((tokens? (unifyBreaks s.toList)).bind ofTokens?).map .ofRoot
  else none

end CallFlow.Yaml
