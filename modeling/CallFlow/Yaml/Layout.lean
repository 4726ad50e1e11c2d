import CallFlow.Yaml.Token

/-! The layout of a configuration file. That a scalar was a key is known only at the colon behind
it, so the place of the last thing that could have been one is remembered, for every open brace and
outside of them, and the parts for a key are put in there later. -/

namespace CallFlow.Yaml

/-- What a colon would turn into a key. -/
structure PendingKey where
  /-- How many tokens stand before it. -/
  position : Nat
  index : Nat
  line : Nat
  column : Nat
  /-- Whether nothing but a key can stand there. -/
  isRequired : Bool
deriving DecidableEq, Repr

structure Layout where
  cursor : Cursor
  tokens : List Token := []
  /-- The columns of the open mappings outside of braces, the innermost one first. -/
  indents : List Nat := []
  key : Option PendingKey := none
  /-- What could be a key around each open brace, the innermost one first. -/
  outerKeys : List (Option PendingKey) := []
  keyAllowed : Bool := true
deriving DecidableEq, Repr

namespace Layout

def inFlow (l : Layout) : Bool := !l.outerKeys.isEmpty

def margin (l : Layout) : Nat :=
  match l.indents with
  | [] => 0
  | column :: _ => column + 1

def push (l : Layout) (t : Token) (c : Cursor) : Layout :=
  { l with tokens := l.tokens ++ [t], cursor := c }

/-- Gives up what could be a key; nothing if it had to be one. -/
def dropKey? (l : Layout) : Option Layout :=
  if l.key.any (·.isRequired) then none else some { l with key := none }

def keyHere (l : Layout) : PendingKey :=
  { position := l.tokens.length
    index := l.cursor.index
    line := l.cursor.line
    column := l.cursor.column
    isRequired := !l.inFlow && l.indents.head? == some l.cursor.column }

def saveKey? (l : Layout) : Option Layout :=
  if l.keyAllowed then l.dropKey?.map fun l => { l with key := some l.keyHere } else some l

/-- Starts a mapping at a column, before the token at a position, if it is deeper than the one
around it. -/
def indent (l : Layout) (column position : Nat) : Layout :=
  if !l.inFlow && decide (l.margin ≤ column) then
    { l with
      indents := column :: l.indents
      tokens := l.tokens.take position ++ .blockStart :: l.tokens.drop position }
  else l

def unindent (l : Layout) (stays : Nat → Bool) : Layout :=
  if l.inFlow then l
  else
    { l with
      indents := l.indents.dropWhile fun column => !stays column
      tokens := l.tokens
        ++ (l.indents.takeWhile fun column => !stays column).map fun _ => .blockEnd }

def endAll? (l : Layout) : Option Layout :=
  ((l.unindent fun _ => false).dropKey?).map fun l => { l with keyAllowed := false }

/-- What is left of something that could be a key: nothing once its line has ended or 1024
characters have passed, which must not happen to what has to be one. -/
def stillPending? (c : Cursor) (key : Option PendingKey) : Option (Option PendingKey) :=
  match key with
  | none => some none
  | some k =>
    if k.line < c.line ∨ k.index + 1024 < c.index then
      if k.isRequired then none else some none
    else some (some k)

/-- Goes to the next token, and ends what its place ends. -/
def advance? (l : Layout) : Option Layout :=
  let (keyAllowed, c) := l.cursor.skipSpace l.inFlow l.cursor.rest.length l.keyAllowed
  match stillPending? c l.key, l.outerKeys.mapM (stillPending? c) with
  | some key, some outerKeys =>
    some ({ l with cursor := c, keyAllowed, key, outerKeys }.unindent (· ≤ c.column))
  | _, _ => none

def openBrace? (l : Layout) : Option Layout :=
  l.saveKey?.map fun l =>
    { l.push .openBrace l.cursor.next with
      key := none, outerKeys := l.key :: l.outerKeys, keyAllowed := true }

def closeBrace? (l : Layout) : Option Layout :=
  match l.outerKeys, l.dropKey? with
  | key :: outerKeys, some l =>
    some { l.push .closeBrace l.cursor.next with key, outerKeys, keyAllowed := false }
  | _, _ => none

def comma? (l : Layout) : Option Layout :=
  l.dropKey?.map fun l => { l.push .comma l.cursor.next with keyAllowed := true }

/-- Starts a mapping here where a key without a sign for it may not stand; nothing where no key
may. -/
def startHere? (l : Layout) : Option Layout :=
  if l.inFlow then some l
  else if l.keyAllowed then some (l.indent l.cursor.column l.tokens.length)
  else none

def keySign? (l : Layout) : Option Layout :=
  (l.startHere?.bind dropKey?).map fun l =>
    { l.push .key l.cursor.next with keyAllowed := !l.inFlow }

/-- A colon: behind what could be a key it makes it one, elsewhere it starts a value by itself. -/
def colon? (l : Layout) : Option Layout :=
  match l.key with
  | some k =>
    let tokens := l.tokens.take k.position ++ .key :: l.tokens.drop k.position
    let l := { l with tokens, key := none, keyAllowed := false }.indent k.column k.position
    some (l.push .value l.cursor.next)
  | none =>
    l.startHere?.map fun l => { l.push .value l.cursor.next with keyAllowed := !l.inFlow }

def keyPart? (l : Layout) (read : Layout → Option (Token × Cursor)) : Option Layout :=
  match l.saveKey? with
  | none => none
  | some l =>
    (read l).map fun (t, c) => { l.push t c with keyAllowed := false }

def plainScalar? (l : Layout) : Option Layout :=
  match l.saveKey? with
  | none => none
  | some l =>
    (plain? l.inFlow l.margin l.cursor).map fun (text, ended, c) =>
      { l.push (.scalar (String.ofList text) .plain) c with keyAllowed := ended }

def textBlock? (l : Layout) (isFolded : Bool) : Option Layout :=
  match l.dropKey? with
  | none => none
  | some l =>
    (block? isFolded l.margin l.cursor).map fun (text, c) =>
      { l.push (.scalar (String.ofList text) (if isFolded then .folded else .literal)) c with
        keyAllowed := true }

def token? (l : Layout) (x : Char) (r : List Char) : Option Layout :=
  let c := l.cursor
  if c.column = 0 ∧ x = '%' then
    l.endAll?.bind fun l => (directive? c).map fun (t, c) => l.push t c
  else if c.isMark '-' then l.endAll?.map fun l => l.push .documentStart (c.drop 3)
  else if c.isMark '.' then l.endAll?.map fun l => l.push .documentEnd (c.drop 3)
  else if x = '[' ∨ x = ']' ∨ (x = '-' ∧ startsBlank r) then none
  else if x = '\x7b' then l.openBrace?
  else if x = '\x7d' then l.closeBrace?
  else if x = ',' then l.comma?
  else if x = '?' ∧ (l.inFlow ∨ startsBlank r) then l.keySign?
  else if x = ':' ∧ (l.inFlow ∨ startsBlank r) then l.colon?
  else if x = '&' then
    l.keyPart? fun l => (anchorName? l.cursor.next).map fun (name, c) => (.anchor name, c)
  else if x = '*' then
    l.keyPart? fun l => (anchorName? l.cursor.next).map fun (name, c) => (.alias name, c)
  else if x = '!' then l.keyPart? fun l => tag? l.inFlow l.cursor
  else if (x = '|' ∨ x = '>') ∧ ¬l.inFlow then l.textBlock? (x = '>')
  else if x = '\'' ∨ x = '"' then
    l.keyPart? fun l =>
      (quoted? x l.cursor).map fun (text, c) => (.scalar (String.ofList text) .quoted, c)
  else if startsPlain l.inFlow c.rest then l.plainScalar?
  else none

/-- The tokens of a text up to its end. Every token takes a character, so the number of characters
left is fuel enough. -/
def run? (fuel : Nat) (l : Layout) : Option (List Token) :=
  match fuel, l.advance? with
  | 0, _ => none
  | _, none => none
  | fuel + 1, some l =>
    match l.cursor.rest with
    | [] => l.endAll?.map (·.tokens)
    | x :: r =>
      match l.token? x r with
      | none => none
      | some l => l.run? fuel
termination_by structural fuel

end Layout

def tokens? (text : List Char) : Option (List Token) :=
  Layout.run? (text.length + 1) { cursor := { rest := text } }

end CallFlow.Yaml
