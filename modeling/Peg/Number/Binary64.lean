/-!
Binary floating-point numbers of 64 bits, kept as their bits: 1 for the sign, 11 for the exponent,
52 for the fraction. The arithmetic is that of IEEE 754. Rounding an exact quotient of two natural
numbers is written out, since it is what ties these numbers to the integers.
-/

namespace Peg

structure Binary64 where
  bits : UInt64
deriving DecidableEq, Inhabited

namespace Binary64

def ofFloat (x : Float) : Binary64 := ⟨x.toBits⟩
def toFloat (x : Binary64) : Float := Float.ofBits x.bits

def add (x y : Binary64) : Binary64 := ofFloat (x.toFloat + y.toFloat)
def sub (x y : Binary64) : Binary64 := ofFloat (x.toFloat - y.toFloat)
def mul (x y : Binary64) : Binary64 := ofFloat (x.toFloat * y.toFloat)
def div (x y : Binary64) : Binary64 := ofFloat (x.toFloat / y.toFloat)

def fractions : Nat := 0x10000000000000

def signWeight : Nat := 0x8000000000000000

def magnitude (x : Binary64) : Nat := x.bits.toNat % signWeight

def isNegative (x : Binary64) : Bool := decide (signWeight ≤ x.bits.toNat)

def infiniteMagnitude : Nat := 0x7FF * fractions

def isFinite (x : Binary64) : Bool := decide (x.magnitude < infiniteMagnitude)
def isNaN (x : Binary64) : Bool := decide (infiniteMagnitude < x.magnitude)
def isZero (x : Binary64) : Bool := x.magnitude == 0

def exponent (x : Binary64) : Int := max (x.magnitude / fractions : Nat) 1 - 1075

/-- The whole number of last places in a finite number, its sign aside. -/
def significand (x : Binary64) : Nat :=
  if x.magnitude < fractions then x.magnitude else x.magnitude % fractions + fractions

def same (x y : Binary64) : Bool :=
  !x.isNaN && !y.isNaN && (x == y || (x.isZero && y.isZero))

/-- A quotient rounded to the nearest integer, a half to the even one. -/
def roundHalfEven (n d : Nat) : Nat :=
  let q := n / d
  let twice := 2 * (n % d)
  if twice < d ∨ (twice = d ∧ q % 2 = 0) then q else q + 1

def scale (n d : Nat) (e : Int) : Nat × Nat :=
  if 0 ≤ e then (n, d * Nat.pow 2 e.toNat) else (n * Nat.pow 2 (-e).toNat, d)

/-- The exponent of the last place that `n / d` is rounded to: 53 binary digits are kept, or as many
as stand above the smallest number. -/
def lastPlace (n d : Nat) : Int :=
  let e : Int := max ((n.log2 : Int) - d.log2 - 52) (-1074)
  let (n', d') := scale n d e
  if n' / d' < fractions ∧ -1074 < e then e - 1 else e

/-- The number nearest to `n / d`, halves to the even neighbour; none if it is too large. -/
def ofRatio? (negative : Bool) (n d : Nat) : Option Binary64 :=
  let e := lastPlace n d
  let (n', d') := scale n d e
  let magnitude := if n = 0 then 0 else (e + 1074).toNat * fractions + roundHalfEven n' d'
  if magnitude < infiniteMagnitude then
    some ⟨UInt64.ofNat (magnitude + if negative then signWeight else 0)⟩
  else none

def ofInt? (n : Int) : Option Binary64 :=
  ofRatio? (decide (n < 0)) n.natAbs 1

def truncate (x : Binary64) : Int :=
  let (m, d) := scale x.significand 1 (-x.exponent)
  if x.isNegative then -((m / d : Nat) : Int) else (m / d : Nat)

def isInt (x : Binary64) (n : Int) : Bool :=
  let (m, d) := scale x.significand 1 (-x.exponent)
  x.isFinite && m == n.natAbs * d && (x.isZero || x.isNegative == decide (n < 0))

end Binary64

end Peg
