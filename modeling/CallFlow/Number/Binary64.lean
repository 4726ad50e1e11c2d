/-! Binary floating-point numbers of 64 bits, held and told apart by their bit pattern. -/

namespace CallFlow

/-- A double-precision number by its bits. -/
structure Binary64 where
  bits : UInt64
deriving DecidableEq, Repr, Ord

namespace Binary64

def toFloat (x : Binary64) : Float := Float.ofBits x.bits

def ofFloat (f : Float) : Binary64 := ⟨f.toBits⟩

def zero : Binary64 := ⟨0⟩

def notANumber : Binary64 := ⟨0x7ff8000000000000⟩

instance : Inhabited Binary64 := ⟨zero⟩

def ofNat (n : Nat) : Binary64 := ofFloat (Float.ofScientific n false 0)

def powerOfTen (e : Nat) : Binary64 := ofFloat (Float.ofScientific 1 false e)

def mul (x y : Binary64) : Binary64 := ofFloat (x.toFloat * y.toFloat)

def div (x y : Binary64) : Binary64 := ofFloat (x.toFloat / y.toFloat)

def isNegative (x : Binary64) : Bool := decide (Nat.pow 2 63 ≤ x.bits.toNat)

def exponentField (x : Binary64) : Nat := x.bits.toNat / Nat.pow 2 52 % Nat.pow 2 11

def fraction (x : Binary64) : Nat := x.bits.toNat % Nat.pow 2 52

def isZero (x : Binary64) : Bool := decide (x.exponentField = 0 ∧ x.fraction = 0)

def isInfinite (x : Binary64) : Bool := decide (x.exponentField = 2047 ∧ x.fraction = 0)

def isNaN (x : Binary64) : Bool := decide (x.exponentField = 2047 ∧ x.fraction ≠ 0)

def isFinite (x : Binary64) : Bool := decide (x.exponentField ≠ 2047)

def neg (x : Binary64) : Binary64 := ⟨x.bits ^^^ 0x8000000000000000⟩

/-- The significand of a finite number: its size is the significand times two to the `scale`. -/
def significand (x : Binary64) : Nat :=
  if x.exponentField = 0 then x.fraction else Nat.pow 2 52 + x.fraction

def scale (x : Binary64) : Int :=
  if x.exponentField = 0 then -1074 else (x.exponentField : Int) - 1075

/-- One pattern for each value: both zeros become positive zero, and every pattern that stands for
no number becomes the same one. -/
def canonical (x : Binary64) : Binary64 :=
  if x.isZero then zero else if x.isNaN then notANumber else x

end Binary64

end CallFlow
