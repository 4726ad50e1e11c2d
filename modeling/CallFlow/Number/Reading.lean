import CallFlow.Number.Binary64

/-! Reading the number of a document. Its digits are gathered into a significand of 64 bits, rounded
to a double-precision number, and scaled by rounded powers of ten: this is the value of the text up
to its last digits, not always the number nearest to it. -/

namespace CallFlow.Number

structure Written where
  negative : Bool
  whole : List Char
  fraction : List Char
  /-- The mark with its sign, and the digits, of the power of ten, if one is written. -/
  power : Option (List Char × List Char)
deriving DecidableEq, Repr

def Written.chars (w : Written) : List Char :=
  let sign := if w.negative then ['-'] else []
  let point := if w.fraction.isEmpty then [] else '.' :: w.fraction
  let power := match w.power with
    | none => []
    | some (mark, ds) => mark ++ ds
  sign ++ w.whole ++ point ++ power

def isDigit (c : Char) : Bool := decide ('0' ≤ c) && decide (c ≤ '9')

def digitValue (c : Char) : Nat := c.toNat - '0'.toNat

def valueOfDigits (ds : List Char) : Nat := ds.foldl (fun n c => n * 10 + digitValue c) 0

def splitSign : List Char → Bool × List Char
  | '-' :: r => (true, r)
  | r => (false, r)

/-- The digits after a point at the front of a text, if there is a point, and what follows them;
nothing if there is a point without digits. -/
def splitFraction? : List Char → Option (List Char × List Char)
  | '.' :: r =>
    if (r.takeWhile isDigit).isEmpty then none
    else some (r.takeWhile isDigit, r.dropWhile isDigit)
  | r => some ([], r)

def splitMark (c : Char) : List Char → List Char × List Char
  | '-' :: r => ([c, '-'], r)
  | '+' :: r => ([c, '+'], r)
  | r => ([c], r)

/-- The power of ten at the front of a text, if there is a mark of one, and what follows it; nothing
if there is a mark without digits. -/
def splitPower? : List Char → Option (Option (List Char × List Char) × List Char)
  | [] => some (none, [])
  | c :: r =>
    if c = 'e' ∨ c = 'E' then
      let (mark, r) := splitMark c r
      if (r.takeWhile isDigit).isEmpty then none
      else some (some (mark, r.takeWhile isDigit), r.dropWhile isDigit)
    else some (none, c :: r)

/-- Splits a number off the front of a text: an optional minus, one zero or digits that start with
none, an optional point with digits, an optional power of ten with digits. -/
def split? (s : List Char) : Option (Written × List Char) :=
  let (negative, s) := splitSign s
  let whole := s.takeWhile isDigit
  if whole.isEmpty || (whole.head? == some '0' && whole.length != 1) then none
  else
    match splitFraction? (s.dropWhile isDigit) with
    | none => none
    | some (fraction, s) =>
      match splitPower? s with
      | none => none
      | some (power, s) => some (⟨negative, whole, fraction, power⟩, s)

def maxSignificand : Nat := UInt64.size - 1

/-- Appends digits to a significand as long as they fit, and answers the digits left over. -/
def gather (significand : Nat) : List Char → Nat × List Char
  | [] => (significand, [])
  | c :: rest =>
    let next := significand * 10 + digitValue c
    if next ≤ maxSignificand then gather next rest else (significand, c :: rest)

/-- Multiplies by a power of ten in single roundings: steps of 308 places down, as long as
something is left to divide, then one multiplication or division. -/
def scaleBy (fuel : Nat) (x : Binary64) (e : Int) : Option Binary64 :=
  if e.natAbs ≤ 308 then
    if 0 ≤ e then
      let y := x.mul (.powerOfTen e.toNat)
      if y.isInfinite then none else some y
    else some (x.div (.powerOfTen e.natAbs))
  else if x.isZero then some x
  else if 0 ≤ e then none
  else
    match fuel with
    | 0 => some .zero
    | fuel + 1 => scaleBy fuel (x.div (.powerOfTen 308)) (e + 308)

def Written.size? (w : Written) : Option Binary64 :=
  let (whole, dropped) := gather 0 w.whole
  let (significand, ignored) := gather whole w.fraction
  let places : Int := (dropped.length : Int) - (w.fraction.length - ignored.length : Nat)
  match w.power with
  | none => scaleBy 4 (.ofNat significand) places
  | some (mark, ds) =>
    let minus := mark.contains '-'
    let power := valueOfDigits ds
    if Nat.pow 2 31 ≤ power then
      if significand ≠ 0 ∧ !minus then none else some .zero
    else scaleBy 4 (.ofNat significand) (if minus then places - power else places + power)

def Written.value? (w : Written) : Option Binary64 :=
  w.size?.map fun x => if w.negative then x.neg else x

def read? (text : String) : Option Binary64 :=
  match split? text.toList with
  | some (w, []) => w.value?
  | _ => none

/-- The natural number that a text of digits alone writes, if it stays below the bound. Only zero
itself starts with a zero. -/
def natural? (bound : Nat) (text : String) : Option Nat :=
  let ds := text.toList
  if ds.isEmpty || !(ds.all isDigit) || (ds.head? == some '0' && ds.length != 1) then none
  else
    let n := valueOfDigits ds
    if n < bound then some n else none

/-- The number that digits write after an optional plus, if it stays below the bound; zeros may
lead. -/
def digits? (bound : Nat) (text : String) : Option Nat :=
  let ds := match text.toList with
    | '+' :: r => r
    | r => r
  if !ds.isEmpty && ds.all isDigit && decide (valueOfDigits ds < bound) then
    some (valueOfDigits ds)
  else none

def isElementIndex (name : String) : Bool := (digits? UInt32.size name).isSome

end CallFlow.Number
