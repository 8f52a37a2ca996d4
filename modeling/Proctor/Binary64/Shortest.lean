import Proctor.Binary64
import Proctor.Decimal

/-!
The shortest decimal that reads back as a given number: the fewest significant digits whose value
rounds to it, the nearest of those to it, a tie to the even last digit.
-/

namespace Proctor.Binary64

/-- `digits` before a decimal point, times ten to the power `exponent`. -/
structure Shortest where
  digits : List Nat
  exponent : Int
  deriving DecidableEq, Repr

/-- The reals that round to a number lie between `low / den` and `high / den`, the bounds included
when the significand is even; `value / den` is the number itself. -/
structure Interval where
  low : Nat
  value : Nat
  high : Nat
  den : Nat
  closed : Bool
  deriving DecidableEq, Repr

/-- The gap below a power of two is half the gap above it. -/
def interval (x : Binary64) : Interval :=
  let m := x.significand
  let halved := m = binade ∧ 2 * binade ≤ x.magnitude
  let below := if halved then 1 else 2
  let up := 1 <<< x.exponent.toNat
  ⟨(4 * m - below) * up, 4 * m * up, (4 * m + 2) * up, 4 <<< (-x.exponent).toNat, m % 2 = 0⟩

def Interval.contains (i : Interval) (n d : Nat) : Bool :=
  if i.closed then i.low * d ≤ n * i.den && n * i.den ≤ i.high * d
  else i.low * d < n * i.den && n * i.den < i.high * d

/-- The multiple of `10 ^ g` that is in the interval and nearest to the value, as a count of
`10 ^ g`. -/
def Interval.nearest? (i : Interval) (g : Int) : Option Nat :=
  let up := Nat.pow 10 g.toNat
  let down := Nat.pow 10 (-g).toNat
  let n := i.value * down
  let d := i.den * up
  let floor := n / d
  let hits (c : Nat) : Bool := i.contains (c * up) down
  match hits floor, hits (floor + 1) with
  | true, false => some floor
  | false, true => some (floor + 1)
  | false, false => none
  | true, true =>
    let r := n % d
    if 2 * r < d then some floor
    else if d < 2 * r then some (floor + 1)
    else some (floor + floor % 2)

/-- Tries ever finer grids, `fuel` of them at most. -/
def Interval.search (i : Interval) : Nat → Int → Shortest
  | 0, g => ⟨Decimal.digits (i.value / i.den), g⟩
  | fuel + 1, g =>
    match i.nearest? g with
    | some c => ⟨Decimal.digits c, g⟩
    | none => i.search fuel (g - 1)

/-- Without the zeros at the end. -/
def Shortest.trim (s : Shortest) : Shortest :=
  let kept := (s.digits.reverse.dropWhile (· == 0)).reverse
  ⟨kept, s.exponent + (s.digits.length - kept.length : Nat)⟩

/-- The exponent of a power of ten above the value of a ratio. -/
def decimalBound (n d : Nat) : Int :=
  if d ≤ n then (Decimal.digits (n / d)).length
  else 1 - (Decimal.digits ((d - 1) / n)).length + 1

/-- The digits of zero are none. -/
def shortest (x : Binary64) : Shortest :=
  if x.magnitude = 0 then ⟨[], 0⟩
  else
    let i := x.interval
    (i.search 20 (decimalBound i.value i.den)).trim

end Proctor.Binary64
