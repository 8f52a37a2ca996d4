import Proctor.Rounding

/-!
Finite floating-point numbers with 53 significant bits, as exact integers. The magnitude of a number
counts the numbers between it and zero, so neighbours differ by one, and the real value is
`significand * 2 ^ exponent`. Rounding is to the nearest number, a tie to the even magnitude.
-/

namespace Proctor

/-- The magnitude at which the numbers end. -/
def Binary64.limit : Nat := 0x7FF0000000000000

/-- How many magnitudes share an exponent; also the least significand of all 53 bits. -/
def Binary64.binade : Nat := 0x10000000000000

structure Binary64 where
  negative : Bool
  magnitude : Nat
  finite : magnitude < Binary64.limit
  deriving DecidableEq, Repr

namespace Binary64

def zero : Binary64 := ⟨false, 0, by decide⟩

def one : Binary64 := ⟨false, 0x3FF0000000000000, by decide⟩

instance : Inhabited Binary64 := ⟨zero⟩

/-- Below the first binade all numbers are spaced alike. -/
def significand (x : Binary64) : Nat :=
  if x.magnitude < binade then x.magnitude else x.magnitude % binade + binade

/-- The exponent of the last significant bit. -/
def exponent (x : Binary64) : Int :=
  if x.magnitude < binade then -1074 else (x.magnitude / binade : Nat) - 1075

def ofMagnitude? (negative : Bool) (magnitude : Nat) : Option Binary64 :=
  if h : magnitude < limit then some ⟨negative, magnitude, h⟩ else none

/-- `n * 2 ^ -k / d`, rounded. -/
def scaledDiv (n d : Nat) (k : Int) : Nat :=
  if 0 ≤ k then roundDiv n (d <<< k.toNat) else roundDiv (n <<< (-k).toNat) d

/-- Whether `n / d` is at least `2 ^ k`. -/
def atLeastPower (n d : Nat) (k : Int) : Bool :=
  if 0 ≤ k then d <<< k.toNat ≤ n else d ≤ n <<< (-k).toNat

/-- The exponent of the last bit that a number next to `n / d` can have. -/
def lastExponent (n d : Nat) : Int :=
  let guess : Int := (Nat.log2 n : Int) - Nat.log2 d
  let top := if atLeastPower n d guess then guess else guess - 1
  max (-1074) (top - 52)

/-- Magnitudes of one binade follow each other, and a carry leads into the next binade. -/
def magnitudeOf (n d : Nat) : Nat :=
  let k := lastExponent n d
  (k + 1074).toNat * binade + scaledDiv n d k

/-- The number nearest to `n / d`, none when it lies beyond the largest. -/
def ofRatio? (negative : Bool) (n d : Nat) : Option Binary64 :=
  if n = 0 then ofMagnitude? negative 0 else ofMagnitude? negative (magnitudeOf n d)

/-- Numerator and denominator of the size of a number. -/
def ratio (x : Binary64) : Nat × Nat :=
  if 0 ≤ x.exponent then (x.significand <<< x.exponent.toNat, 1)
  else (x.significand, 1 <<< (-x.exponent).toNat)

/-- The largest number, for results that lie beyond it. -/
def largest (negative : Bool) : Binary64 := ⟨negative, limit - 1, by decide⟩

def ofNat (n : Nat) : Binary64 :=
  (ofRatio? false n 1).getD (largest false)

/-- The rounded product of two sizes, with the sign of the first. -/
def mul? (x y : Binary64) : Option Binary64 :=
  let (n, d) := x.ratio
  let (n', d') := y.ratio
  ofRatio? x.negative (n * n') (d * d')

/-- The rounded quotient of two sizes, with the sign of the first. -/
def div? (x y : Binary64) : Option Binary64 :=
  let (n, d) := x.ratio
  let (n', d') := y.ratio
  ofRatio? x.negative (n * d') (d * n')

/-- The quotient of two counts, which are rounded to numbers first. -/
def divNat (n d : Nat) : Binary64 :=
  ((ofNat n).div? (ofNat d)).getD (largest false)

end Binary64

end Proctor
