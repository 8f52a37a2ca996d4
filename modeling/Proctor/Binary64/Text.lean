import Proctor.Binary64.Shortest

/-!
The two written forms of a number, both with the shortest digits: the plain form never has an
exponent, the document form has one for very large and very small numbers.
-/

namespace Proctor.Binary64

/-- Digits before the decimal point and after it. -/
def Shortest.positional (s : Shortest) : List Nat × List Nat :=
  let n := s.digits.length
  if 0 ≤ s.exponent then (s.digits ++ List.replicate s.exponent.toNat 0, [])
  else
    let k := (-s.exponent).toNat
    if k < n then (s.digits.take (n - k), s.digits.drop (n - k))
    else ([0], List.replicate (k - n) 0 ++ s.digits)

/-- Plain form: a whole number has no point. -/
def plainChars (x : Binary64) : List Char :=
  let sign := if x.negative then ['-'] else []
  if x.magnitude = 0 then sign ++ ['0']
  else
    let (whole, fraction) := x.shortest.positional
    sign ++ whole.map Decimal.char ++
      (if fraction.isEmpty then [] else '.' :: fraction.map Decimal.char)

def plainText (x : Binary64) : String :=
  String.ofList x.plainChars

end Proctor.Binary64
