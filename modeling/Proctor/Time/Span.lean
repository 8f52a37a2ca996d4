import Proctor.Decimal
import Proctor.Rounding

/-!
Lengths of time, and the text that reports give for the time that tests took.
-/

namespace Proctor

/-- Whole seconds and a part of a second in nanoseconds. -/
structure Span where
  nanos : Nat
  deriving DecidableEq, Repr

namespace Span

def ofSeconds (seconds : Nat) : Span := ⟨seconds * 1000000000⟩

/-- The largest unit that the span fills at least once, and its length in nanoseconds. -/
def unit (s : Span) : String × Nat :=
  if 1000000000 ≤ s.nanos then ("s", 1000000000)
  else if 1000000 ≤ s.nanos then ("ms", 1000000)
  else if 1000 ≤ s.nanos then ("µs", 1000)
  else ("ns", 1)

/-- Two places in the unit, a tie to the even hundredth. Rounding up to the next unit keeps the
unit. -/
def text (s : Span) : String :=
  let (name, length) := s.unit
  let hundredths := roundDiv (s.nanos * 100) length
  Decimal.text (hundredths / 100) ++ "." ++ String.ofList (Decimal.padded 2 (hundredths % 100)) ++ name

end Span

end Proctor
