import Proctor.Binary64.Shortest
import Proctor.Json.Basic

/-!
Numbers of a document. Integers must be written without a point or an exponent. A fractional number
is read in two steps: the digits that fit in 64 bits are rounded, and the result is multiplied or
divided by a rounded power of ten and rounded again.
-/

namespace Proctor

namespace Numeral

def isInteger (n : Numeral) : Bool :=
  n.fraction.isEmpty && n.exponent.isNone

/-- An unsigned integer below `bound`. -/
def natural? (bound : Nat) (n : Numeral) : Option Nat :=
  if n.isInteger ∧ ¬n.negative ∧ n.whole < bound then some n.whole else none

/-- An integer of 64 bits, as signed integers are read; zero has no sign. -/
def integer? (n : Numeral) : Option Int :=
  if n.isInteger then
    if n.negative then
      if 0 < n.whole ∧ n.whole ≤ UInt64.size / 2 then some (-n.whole) else none
    else if n.whole < UInt64.size / 2 then some n.whole
    else none
  else none

/-- A signed integer of at least `low` and at most `high`. -/
def integerWithin? (low high : Int) (n : Numeral) : Option Int :=
  match n.integer? with
  | some i => if low ≤ i ∧ i ≤ high then some i else none
  | none => none

end Numeral

namespace Binary64

/-- The number nearest to a power of ten. -/
def powerOfTen (n : Nat) : Binary64 :=
  ofNat (Nat.pow 10 n)

/-- Divides by the largest power of ten in steps until the rest of the exponent has a power of its
own; zero stays zero. -/
def scaleDown? : Nat → Binary64 → Nat → Option Binary64
  | 0, x, _ => some x
  | fuel + 1, x, places =>
    if places ≤ 308 then x.div? (powerOfTen places)
    else if x.magnitude = 0 then some x
    else do scaleDown? fuel (← x.div? (powerOfTen 308)) (places - 308)

/-- Two steps of the largest power take any number to zero. -/
def scale? (x : Binary64) (exponent : Int) : Option Binary64 :=
  if exponent < 0 then scaleDown? 4 x exponent.natAbs
  else if exponent ≤ 308 then x.mul? (powerOfTen exponent.toNat)
  else if x.magnitude = 0 then some x
  else none

end Binary64

namespace Numeral

/-- Digits that fit in 64 bits, and how many digits before the point were left out. -/
def wholeSignificand (significand : Nat) : List Nat → Nat × Nat
  | [] => (significand, 0)
  | d :: ds =>
    if significand * 10 + d < UInt64.size then wholeSignificand (significand * 10 + d) ds
    else (significand, ds.length + 1)

/-- Appends digits after the point until one does not fit; counts those that did. -/
def fractionSignificand (significand places : Nat) : List Nat → Nat × Nat
  | [] => (significand, places)
  | d :: ds =>
    if significand * 10 + d < UInt64.size then
      fractionSignificand (significand * 10 + d) (places + 1) ds
    else (significand, places)

/-- Beyond this an exponent is not computed with. -/
def exponentLimit : Nat := UInt32.size / 2 - 1

/-- The finite number that a numeral stands for, none when it is too large. -/
def binary64? (n : Numeral) : Option Binary64 :=
  let (significand, dropped) := wholeSignificand 0 (Decimal.digits n.whole)
  let (significand, places) := fractionSignificand significand 0 n.fraction
  let exponent := n.exponent.getD 0
  if exponentLimit < exponent.natAbs then
    if significand ≠ 0 ∧ 0 < exponent then none else Binary64.ofMagnitude? n.negative 0
  else do
    let x ← Binary64.ofRatio? n.negative significand 1
    x.scale? (exponent + dropped - places)

/-- The written form: the shortest digits, positional with at least one place for powers of ten from
`-5` to `15`, otherwise one digit before the point and an exponent. -/
def ofBinary64 (x : Binary64) : Numeral :=
  let s := x.shortest
  match s.digits with
  | [] => ⟨x.negative, 0, [0], none⟩
  | d :: ds =>
    let point : Int := s.exponent + ds.length
    if -5 ≤ point ∧ point ≤ 15 then
      if point < 0 then
        ⟨x.negative, 0, List.replicate (-point - 1).toNat 0 ++ d :: ds, none⟩
      else
        let whole := (d :: ds ++ List.replicate s.exponent.toNat 0).take (point.toNat + 1)
        let fraction := ds.drop point.toNat
        ⟨x.negative, Decimal.value whole, if fraction.isEmpty then [0] else fraction, none⟩
    else ⟨x.negative, d, ds, some point⟩

end Numeral

end Proctor
