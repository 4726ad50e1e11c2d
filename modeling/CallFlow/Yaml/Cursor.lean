import CallFlow.Yaml.Basic

/-! Places in the text of a configuration file. The meaning of a text depends on columns, so a place
knows its line and its column besides the characters left. -/

namespace CallFlow.Yaml

def isAllowed (c : Char) : Bool :=
  let n := c.toNat
  n == 0x09 || n == 0x0a || n == 0x0d || (0x20 ≤ n && n ≤ 0x7e) || n == 0x85
    || (0xa0 ≤ n && n ≤ 0xfffd) || 0x10000 ≤ n

def isBreak (c : Char) : Bool :=
  c = '\n' || c = '\r' || c = '\u0085' || c = '\u2028' || c = '\u2029'

/-- A text with a line feed for each way to end a line. -/
def unifyBreaks : List Char → List Char
  | [] => []
  | '\r' :: '\n' :: r => '\n' :: unifyBreaks r
  | c :: r => (if isBreak c then '\n' else c) :: unifyBreaks r

def isBlank (c : Char) : Bool := c = ' ' || c = '\t'

/-- Whether a character separates the words of a scalar. -/
def isGap (c : Char) : Bool := isBlank c || c = '\n'

/-- Whether a text starts with a blank, or a line or the text ends here. -/
def startsBlank : List Char → Bool
  | [] => true
  | c :: _ => isGap c

def isNameChar (c : Char) : Bool :=
  ('0' ≤ c && c ≤ '9') || ('a' ≤ c && c ≤ 'z') || ('A' ≤ c && c ≤ 'Z') || c = '-' || c = '_'

/-- A place in a text: the characters left, and how many characters, lines, and characters of this
line are behind it. -/
structure Cursor where
  rest : List Char
  index : Nat := 0
  line : Nat := 0
  column : Nat := 0
deriving DecidableEq, Repr

namespace Cursor

def next (c : Cursor) : Cursor :=
  match c.rest with
  | [] => c
  | x :: rest =>
    if x = '\n' then ⟨rest, c.index + 1, c.line + 1, 0⟩
    else ⟨rest, c.index + 1, c.line, c.column + 1⟩

def drop (c : Cursor) : Nat → Cursor
  | 0 => c
  | n + 1 => c.next.drop n

def span (c : Cursor) (kind : Char → Bool) : List Char × Cursor :=
  let taken := c.rest.takeWhile kind
  (taken, c.drop taken.length)

def head? (c : Cursor) : Option Char := c.rest.head?

def skipBlanks (c : Cursor) : Cursor := (c.span isBlank).2

def skipLine (c : Cursor) : Cursor := (c.span (· ≠ '\n')).2

/-- The place in the next line, if nothing but blanks and a comment is left of this one. -/
def nextLine? (c : Cursor) : Option Cursor :=
  let c := c.skipBlanks
  let c := if c.head? = some '#' then c.skipLine else c
  if startsBlank c.rest then some c.next else none

/-- Whether three characters of one kind stand alone at the start of a line. -/
def isMark (c : Cursor) (sign : Char) : Bool :=
  decide (c.column = 0) && decide (c.rest.take 3 = [sign, sign, sign])
    && startsBlank (c.rest.drop 3)

def isDocumentMark (c : Cursor) : Bool := c.isMark '-' || c.isMark '.'

/-- The place of the next character that is not blank, not in a comment and does not end a line, and
whether a key may stand there. Outside of braces a key may stand in every new line, and where one
may stand a tab is no blank. A mark of the byte order at the start of a line is passed over. The
number of characters left is fuel enough. -/
def skipSpace (inFlow : Bool) (fuel : Nat) (keyAllowed : Bool) (c : Cursor) : Bool × Cursor :=
  match fuel, c.rest with
  | 0, _ => (keyAllowed, c)
  | _, [] => (keyAllowed, c)
  | fuel + 1, x :: _ =>
    if x = '\n' then c.next.skipSpace inFlow fuel (keyAllowed || !inFlow)
    else if x = ' ' ∨ (x = '\t' ∧ (inFlow ∨ ¬keyAllowed)) ∨ (x = '\ufeff' ∧ c.column = 0) then
      c.next.skipSpace inFlow fuel keyAllowed
    else if x = '#' then c.skipLine.skipSpace inFlow fuel keyAllowed
    else (keyAllowed, c)
termination_by structural fuel

end Cursor

end CallFlow.Yaml
