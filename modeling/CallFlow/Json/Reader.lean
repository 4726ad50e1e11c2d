import CallFlow.Json.Basic

/-! Reading JSON text, by the grammar of the standard and nothing beyond it. Each of three mutually
recursive parts takes one unit of fuel per call; twice the length of the text is enough, since every
second call takes a character. -/

namespace CallFlow.Json

def isBlank (c : Char) : Bool := c = ' ' || c = '\t' || c = '\n' || c = '\r'

def skipBlanks (s : List Char) : List Char := s.dropWhile isBlank

/-- The characters up to the closing quote of a string, as written, and what follows the quote;
`done` holds those already passed, last one first. -/
def stringBody (done : List Char) : List Char → Option (List Char × List Char)
  | [] => none
  | '"' :: rest => some (done.reverse, rest)
  | '\\' :: 'u' :: a :: b :: c :: d :: rest =>
    if (hex4? a b c d).isSome then stringBody (d :: c :: b :: a :: 'u' :: '\\' :: done) rest
    else none
  | '\\' :: c :: rest =>
    if (namedEscape? c).isSome then stringBody (c :: '\\' :: done) rest else none
  | c :: rest => if c.toNat < 0x20 ∨ c = '\\' then none else stringBody (c :: done) rest

def afterWord? : List Char → List Char → Option (List Char)
  | [], s => some s
  | _ :: _, [] => none
  | w :: ws, c :: s => if w = c then afterWord? ws s else none

mutual

def value (fuel : Nat) (s : List Char) : Option (Json × List Char) :=
  match fuel with
  | 0 => none
  | fuel + 1 =>
    match s with
    | [] => none
    | '"' :: rest => (stringBody [] rest).map fun (w, r) => (.string (String.ofList w), r)
    | '[' :: rest =>
      match skipBlanks rest with
      | ']' :: r => some (.array [], r)
      | r => items fuel [] r
    | '\x7b' :: rest =>
      match skipBlanks rest with
      | '\x7d' :: r => some (.object [], r)
      | r => members fuel [] r
    | 't' :: rest => (afterWord? ['r', 'u', 'e'] rest).map fun r => (.bool true, r)
    | 'f' :: rest => (afterWord? ['a', 'l', 's', 'e'] rest).map fun r => (.bool false, r)
    | 'n' :: rest => (afterWord? ['u', 'l', 'l'] rest).map fun r => (.null, r)
    | c :: rest =>
      (Number.split? (c :: rest)).map fun (w, r) => (.number (String.ofList w.chars), r)

/-- The items of an array from an item on, up to the closing bracket. -/
def items (fuel : Nat) (done : List Json) (s : List Char) : Option (Json × List Char) :=
  match fuel with
  | 0 => none
  | fuel + 1 =>
    match value fuel s with
    | none => none
    | some (j, r) =>
      match skipBlanks r with
      | ',' :: r' => items fuel (j :: done) (skipBlanks r')
      | ']' :: r' => some (.array (j :: done).reverse, r')
      | _ => none

/-- The members of an object from a name on, up to the closing brace. -/
def members (fuel : Nat) (done : List (String × Json)) (s : List Char) :
    Option (Json × List Char) :=
  match fuel with
  | 0 => none
  | fuel + 1 =>
    match s with
    | '"' :: rest =>
      match stringBody [] rest with
      | none => none
      | some (name, r) =>
        match skipBlanks r with
        | ':' :: r' =>
          match value fuel (skipBlanks r') with
          | none => none
          | some (j, r'') =>
            match skipBlanks r'' with
            | ',' :: r3 => members fuel ((String.ofList name, j) :: done) (skipBlanks r3)
            | '\x7d' :: r3 => some (.object ((String.ofList name, j) :: done).reverse, r3)
            | _ => none
        | _ => none
    | _ => none

end

def parse? (s : String) : Option Json :=
  let cs := s.toList
  match value (2 * cs.length + 2) (skipBlanks cs) with
  | none => none
  | some (j, rest) => if (skipBlanks rest).isEmpty then some j else none

end CallFlow.Json
