import CallFlow.Number.Binary64

/-! The shortest decimal form of a double-precision number: of the decimals with the fewest digits
that round to the number, the one nearest to its value. The use decides between two equally near
ones. -/

namespace CallFlow.Number

/-- A decimal: `digits` times ten to the `exponent`. -/
structure Decimal where
  digits : Nat
  exponent : Int
deriving DecidableEq, Repr

/-- Which of two equally near decimals is taken. -/
inductive Tie where
  /-- The larger one. -/
  | up
  | toEven
deriving DecidableEq, Repr

def digitCount (n : Nat) : Nat := (Nat.toDigits 10 n).length

/-- The exponent of the leading decimal digit of the positive quotient `num / den`. -/
def leadingExponent (num den : Nat) : Int :=
  if den ≤ num then (digitCount (num / den) : Int) - 1
  else -(digitCount ((den - 1) / num) : Int)

/-- The interval of a positive finite number in quarters of its last binary place, as whole
multiples of `unit / den`. -/
structure Neighbourhood where
  low : Nat
  value : Nat
  high : Nat
  closed : Bool
  unit : Nat
  den : Nat

/-- The reals that round to a positive finite number. Below a power of two the neighbour is half
as far away as above it. -/
def Neighbourhood.of (x : Binary64) : Neighbourhood :=
  let m := x.significand
  let q := x.scale - 2
  { low := if x.fraction = 0 ∧ 1 < x.exponentField then 4 * m - 1 else 4 * m - 2
    value := 4 * m
    high := 4 * m + 2
    closed := decide (m % 2 = 0)
    unit := if 0 ≤ q then Nat.pow 2 q.toNat else 1
    den := if 0 ≤ q then 1 else Nat.pow 2 (-q).toNat }

def Neighbourhood.holds (n : Neighbourhood) (x : Nat) (p : Int) : Bool :=
  let up := if 0 ≤ p then 1 else Nat.pow 10 (-p).toNat
  let down := if 0 ≤ p then Nat.pow 10 p.toNat else 1
  let here := x * n.den * down
  let low := n.low * n.unit * up
  let high := n.high * n.unit * up
  if n.closed then decide (low ≤ here) && decide (here ≤ high)
  else decide (low < here) && decide (here < high)

/-- The member of the interval on the grid of multiples of ten to the `p` that is nearest to the
value, looked for among the value's two neighbours on the grid. -/
def Neighbourhood.onGrid? (n : Neighbourhood) (tie : Tie) (p : Int) : Option Nat :=
  let up := if 0 ≤ p then 1 else Nat.pow 10 (-p).toNat
  let down := if 0 ≤ p then Nat.pow 10 p.toNat else 1
  let num := n.value * n.unit * up
  let den := n.den * down
  let below := num / den
  let above := below + 1
  let twice := 2 * (num % den)
  let nearerBelow :=
    decide (twice < den) || (decide (twice = den ∧ tie = .toEven) && decide (below % 2 = 0))
  match n.holds below p, n.holds above p with
  | true, true => some (if nearerBelow then below else above)
  | true, false => some below
  | false, true => some above
  | false, false => none

/-- Tries the grids of `count`, `count + 1`, … digits, `fuel` of them. -/
def Neighbourhood.search (n : Neighbourhood) (tie : Tie) (lead : Int) :
    (fuel count : Nat) → Decimal
  | 0, count => ⟨n.value, lead - count + 1⟩
  | fuel + 1, count =>
    let p := lead - count + 1
    match n.onGrid? tie p with
    | some x => ⟨x, p⟩
    | none => n.search tie lead fuel (count + 1)

def shortest (tie : Tie) (x : Binary64) : Decimal :=
  let n := Neighbourhood.of x
  n.search tie (leadingExponent (n.value * n.unit) n.den) 17 1

/-- The digits of a positive decimal without closing zeros, and the place of its decimal point,
counted from the left of the digits. -/
def Decimal.spread (d : Decimal) : List Char × Int :=
  let ds := Nat.toDigits 10 d.digits
  let point := (ds.length : Int) + d.exponent
  ((ds.reverse.dropWhile (· = '0')).reverse, point)

/-- Digits with a decimal point, padded by zeros where the point lies outside of them. -/
def positional (ds : List Char) (point : Int) : List Char :=
  if point ≤ 0 then ['0', '.'] ++ List.replicate (-point).toNat '0' ++ ds
  else
    let n := point.toNat
    if ds.length ≤ n then ds ++ List.replicate (n - ds.length) '0'
    else ds.take n ++ '.' :: ds.drop n

def scientific (ds : List Char) (point : Int) : List Char :=
  let tail := match ds with
    | [] => []
    | [d] => [d]
    | d :: rest => d :: '.' :: rest
  tail ++ 'e' :: (toString (point - 1)).toList

end CallFlow.Number

namespace CallFlow.Binary64

/-- The text of a number in messages and listings: the shortest digits in positional notation,
never a power of ten, no decimal point after a whole number. The larger of two equally near
decimals stands for the number. -/
def toText (x : Binary64) : String :=
  if x.isNaN then "NaN"
  else
    let sign := if x.isNegative then ['-'] else []
    let body :=
      if x.isInfinite then ['i', 'n', 'f']
      else if x.isZero then ['0']
      else
        let (ds, point) := (Number.shortest .up x).spread
        Number.positional ds point
    String.ofList (sign ++ body)

/-- The text of a finite number in a document: the shortest digits, with a decimal point in
positional notation, and with a power of ten where more than sixteen digits would stand before
the point or more than five zeros after it. Of two equally near decimals the one whose last digit
is even stands for the number. -/
def toDocumentText (x : Binary64) : String :=
  let sign := if x.isNegative then ['-'] else []
  let body :=
    if x.isZero then ['0', '.', '0']
    else
      let (ds, point) := (Number.shortest .toEven x).spread
      if -5 < point ∧ point ≤ 16 then
        let text := Number.positional ds point
        if (ds.length : Int) ≤ point then text ++ ['.', '0'] else text
      else Number.scientific ds point
  String.ofList (sign ++ body)

end CallFlow.Binary64
