import Peg.Number.Binary64

/-!
Shortest decimals. A floating-point number is written with the fewest digits that read back as it,
and of those decimals as the nearest.
-/

namespace Peg

structure Decimal where
  digits : Nat
  exponent : Int
deriving DecidableEq, Inhabited, Repr

namespace Binary64

/-- The number of decimal digits before the point of a positive number, or less the number of zeros
after the point if it is below one. -/
def magnitudeTen (x : Binary64) : Int :=
  let (n, d) := scale (x.significand * Nat.pow 10 400) 1 (-x.exponent)
  ((n / d).repr.length : Int) - 400

/-- The decimal with the place `10 ^ k` as its last that reads back as a positive number, if there is
one. Lengths are measured in quarters of the number's own last place: the decimals that read back
lie within two quarters, or within one below a power of two, whose lower neighbour is nearer. -/
def onGrid? (x : Binary64) (k : Int) : Option Decimal :=
  let s := x.significand
  let (quarter, unit) := scale 1 1 (2 - x.exponent)
  let (quarter, place) :=
    if 0 ≤ k then (quarter, unit * Nat.pow 10 k.toNat)
    else (quarter * Nat.pow 10 (-k).toNat, unit)
  let below := if s = fractions ∧ -1074 < x.exponent then 1 else 2
  let readsBack (c : Nat) : Bool :=
    let size := c * place
    if s % 2 = 0 then
      decide ((4 * s - below) * quarter ≤ size ∧ size ≤ (4 * s + 2) * quarter)
    else decide ((4 * s - below) * quarter < size ∧ size < (4 * s + 2) * quarter)
  let c := 4 * s * quarter / place
  let left := 2 * (4 * s * quarter % place)
  let nearest := if left < place ∨ (left = place ∧ c % 2 = 0) then c else c + 1
  let other := if nearest = c then c + 1 else c
  if readsBack nearest then some ⟨nearest, k⟩
  else if readsBack other then some ⟨other, k⟩
  else none

/-- The shortest decimal that reads back as a positive number: seventeen digits are always enough. -/
def shortest (x : Binary64) : Decimal :=
  let p := x.magnitudeTen
  ((List.range 17).findSome? fun (n : Nat) => x.onGrid? (p - (n + 1))).getD ⟨0, 0⟩

end Binary64

namespace Decimal

def significant (d : Decimal) : List Char :=
  (d.digits.repr.toList.reverse.dropWhile (· == '0')).reverse

def point (d : Decimal) : Int := d.digits.repr.length + d.exponent

/-- Positional up to sixteen digits before the point and three zeros after it, always with a point;
otherwise with an exponent of two digits or more. -/
def text (d : Decimal) : String :=
  let ds := d.significant
  let p := d.point
  if -4 < p ∧ p ≤ 16 then
    if p ≤ 0 then "0." ++ String.ofList (List.replicate (-p).toNat '0' ++ ds)
    else
      let whole := ds.take p.toNat
      let fraction := ds.drop p.toNat
      String.ofList (whole ++ List.replicate (p.toNat - whole.length) '0') ++ "." ++
        (if fraction.isEmpty then "0" else String.ofList fraction)
  else
    let e := p - 1
    let size := e.natAbs.repr
    String.ofList (ds.take 1) ++ (if ds.length ≤ 1 then "" else "." ++ String.ofList (ds.drop 1)) ++
      "e" ++ (if e < 0 then "-" else "+") ++ (if size.length < 2 then "0" ++ size else size)

end Decimal

def Binary64.text (x : Binary64) : String :=
  if x.isNaN then "nan"
  else
    (if x.isNegative then "-" else "") ++
      (if !x.isFinite then "inf" else if x.isZero then "0.0" else x.shortest.text)

end Peg
