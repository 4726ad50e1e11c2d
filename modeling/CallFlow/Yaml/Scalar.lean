import CallFlow.Yaml.Cursor

/-! The ways to write a scalar: without quotes, in quotes, or as a block of indented lines. What
separates the words of the first two is folded: a single line end becomes a space, and of several
one is dropped. -/

namespace CallFlow.Yaml

def foldGap (gap : List Char) : List Char :=
  match gap.count '\n' with
  | 0 => gap
  | 1 => [' ']
  | n + 1 => List.replicate n '\n'

def flowSigns : List Char := [',', '[', ']', '\x7b', '\x7d']

def startsPlain (inFlow : Bool) : List Char → Bool
  | [] => false
  | c :: r =>
    if c = '-' then !startsBlank r
    else if c = '?' ∨ c = ':' then !inFlow && !startsBlank r
    else
      !(isGap c || c ∈ flowSigns
        || c ∈ ['#', '&', '*', '!', '|', '>', '\'', '"', '%', '@', '\x60'])

/-- The characters of a scalar without quotes up to a gap or its end. It ends at a colon before a
blank, and between braces at a comma and at every bracket; a colon right before one of these, or
before a question mark, is refused there. -/
def plainWord? (inFlow : Bool) : List Char → Option (List Char)
  | [] => some []
  | c :: r =>
    if isGap c then some []
    else if inFlow && c = ':' && r.head?.any (· ∈ '?' :: flowSigns) then none
    else if c = ':' ∧ startsBlank r then some []
    else if inFlow && c ∈ flowSigns then some []
    else (plainWord? inFlow r).map (c :: ·)

/-- Whether a gap indents a line by a tab left of the margin. The column is the one in the present
line, if it is indentation. -/
def tabInMargin (margin : Nat) (column : Option Nat) : List Char → Bool
  | [] => false
  | c :: r =>
    if c = '\n' then tabInMargin margin (some 0) r
    else
      match column with
      | none => tabInMargin margin none r
      | some n => (c = '\t' && decide (n < margin)) || tabInMargin margin (some (n + 1)) r

/-- What is left of a scalar without quotes behind the text `done` and a gap, the place behind it,
and whether a line ended in the gap before that place. Outside of braces it does not go on left of
the margin. The number of characters left is fuel enough. -/
def plainRest? (inFlow : Bool) (margin fuel : Nat) (done gap : List Char) (c : Cursor) :
    Option (List Char × Bool × Cursor) :=
  match fuel with
  | 0 => none
  | fuel + 1 =>
    match plainWord? inFlow c.rest with
    | none => none
    | some [] => some (done, decide ('\n' ∈ gap), c)
    | some word =>
      let text := done ++ foldGap gap ++ word
      let (gap, c) := (c.drop word.length).span isGap
      if tabInMargin margin none gap then none
      else if gap.isEmpty || c.isDocumentMark || c.head? = some '#'
          || (!inFlow && decide (c.column < margin)) then
        some (text, decide ('\n' ∈ gap), c)
      else plainRest? inFlow margin fuel text gap c

def plain? (inFlow : Bool) (margin : Nat) (c : Cursor) : Option (List Char × Bool × Cursor) :=
  plainRest? inFlow margin (c.rest.length + 1) [] [] c

def charOfCode? (n : Nat) : Option Char := if n.isValidChar then some (Char.ofNat n) else none

def namedChar? (c : Char) : Option Char :=
  [('0', '\x00'), ('a', '\x07'), ('b', '\x08'), ('t', '\t'), ('\t', '\t'), ('n', '\n'),
    ('v', '\x0b'), ('f', '\x0c'), ('r', '\r'), ('e', '\x1b'), (' ', ' '), ('"', '"'),
    ('/', '/'), ('\\', '\\'), ('N', '\u0085'), ('_', '\u00a0'), ('L', '\u2028'),
    ('P', '\u2029')].lookup c

def codeLength? (c : Char) : Option Nat := [('x', 2), ('u', 4), ('U', 8)].lookup c

def escape? : List Char → Option (Char × Nat)
  | [] => none
  | c :: r =>
    match namedChar? c, codeLength? c with
    | some x, _ => some (x, 1)
    | none, some n =>
      if r.length < n then none
      else ((digits? 16 (r.take n)).bind charOfCode?).map fun x => (x, n + 1)
    | none, none => none

/-- What is left of a scalar in quotes behind the text `done`, and the place behind its closing
quote. No mark of a document may stand in it. Between double quotes a backslash names a character,
or takes a line end and the indentation behind it away. The number of characters left is fuel
enough. -/
def quotedRest? (quote : Char) (fuel : Nat) (done : List Char) (c : Cursor) :
    Option (List Char × Cursor) :=
  match fuel with
  | 0 => none
  | fuel + 1 =>
    if c.isDocumentMark then none
    else
      match c.rest with
      | [] => none
      | x :: r =>
        if isGap x then
          let (gap, c) := c.span isGap
          quotedRest? quote fuel (done ++ foldGap gap) c
        else if x = quote then
          if quote = '\'' ∧ r.head? = some '\'' then
            quotedRest? quote fuel (done ++ ['\'']) (c.drop 2)
          else some (done, c.next)
        else if x = '\\' ∧ quote = '"' then
          if r.head? = some '\n' then
            let (gap, c) := (c.drop 2).span isGap
            quotedRest? quote fuel (done ++ gap.filter (· = '\n')) c
          else
            match escape? r with
            | none => none
            | some (y, n) => quotedRest? quote fuel (done ++ [y]) (c.drop (n + 1))
        else quotedRest? quote fuel (done ++ [x]) c.next

def quoted? (quote : Char) (c : Cursor) : Option (List Char × Cursor) :=
  quotedRest? quote (c.rest.length + 1) [] c.next

/-- How the line ends at the end of a text block are kept: none, one or all. -/
inductive Chomping where
  | strip
  | clip
  | keep
deriving DecidableEq, Repr

def Chomping.ofSign? (c : Char) : Option Chomping :=
  if c = '-' then some .strip else if c = '+' then some .keep else none

/-- What stands behind the sign of a text block, in either order: how line ends are kept, and by
how much the block is indented. -/
def blockHeader (c : Cursor) : Chomping × Option Nat × Cursor :=
  let sign (c : Cursor) : Option Chomping := c.head?.bind Chomping.ofSign?
  let depth (c : Cursor) : Option Nat := c.head?.bind (digit? 10)
  match sign c, depth c with
  | some k, _ =>
    match depth c.next with
    | some n => (k, some n, c.drop 2)
    | none => (k, none, c.next)
  | none, some n =>
    match sign c.next with
    | some k => (k, some n, c.drop 2)
    | none => (.clip, some n, c.next)
  | none, none => (.clip, none, c)

/-- Blank lines and the indentation of the line behind them: how many they are, the deepest column
in them, and the place behind the indentation. A block that knows its own column is indented up to
it by spaces alone; one that does not takes all of them. -/
def blankLines? (own : Option Nat) (fuel lines deepest : Nat) (c : Cursor) :
    Option (Nat × Nat × Cursor) :=
  match fuel with
  | 0 => none
  | fuel + 1 =>
    let spaces := (c.rest.takeWhile (· = ' ')).length
    let room := match own with
      | none => spaces
      | some n => n - c.column
    let c := c.drop (min spaces room)
    let deepest := max deepest c.column
    if c.head? = some '\t' ∧ own.all (fun n => decide (c.column < n)) then none
    else if c.head? = some '\n' then blankLines? own fuel (lines + 1) deepest c.next
    else some (lines, deepest, c)

/-- The text of a block behind the text `done`, the line ends behind it, and the place behind them.
`ended` says whether the line before ended, `blanks` counts the blank lines behind it, and
`wasBlank` says whether it started with a blank. -/
def blockRest? (isFolded : Bool) (own fuel : Nat) (done : List Char) (ended : Bool) (blanks : Nat)
    (wasBlank : Bool) (c : Cursor) : Option (List Char × Bool × Nat × Cursor) :=
  match fuel with
  | 0 => none
  | fuel + 1 =>
    if c.column ≠ own ∨ c.rest = [] then some (done, ended, blanks, c)
    else
      let isBlank := c.head?.any isBlank
      let joint :=
        if !ended then []
        else if isFolded && !wasBlank && !isBlank then if blanks = 0 then [' '] else []
        else ['\n']
      let (line, c) := c.span (· ≠ '\n')
      let text := done ++ joint ++ List.replicate blanks '\n' ++ line
      match blankLines? (some own) (c.rest.length + 1) 0 0 c.next with
      | none => none
      | some (blanks, _, after) =>
        blockRest? isFolded own fuel text (decide (c.rest ≠ [])) blanks isBlank after

/-- A text block inside a block with the given margin, and the place behind it. Its own column is
the given number of columns right of the block around it, or the column of its first line with
content, which is at least the margin and never the first one. -/
def block? (isFolded : Bool) (margin : Nat) (c : Cursor) : Option (List Char × Cursor) :=
  let (chomping, given, c) := blockHeader c.next
  if given = some 0 then none
  else
    match c.nextLine? with
    | none => none
    | some c =>
      let fixed := given.map (margin - 1 + ·)
      match blankLines? fixed (c.rest.length + 1) 0 0 c with
      | none => none
      | some (blanks, deepest, c) =>
        let own := fixed.getD (max (max deepest margin) 1)
        match blockRest? isFolded own (c.rest.length + 1) [] false blanks false c with
        | none => none
        | some (text, ended, blanks, c) =>
          let last := if ended then ['\n'] else []
          let text := match chomping with
            | .strip => text
            | .clip => text ++ last
            | .keep => text ++ last ++ List.replicate blanks '\n'
          some (text, c)

end CallFlow.Yaml
