import Proctor.Time.Calendar

/-!
Instants of universal time to the nanosecond. A leap second is the second after `:59`; it is kept as
that second with a fraction of one second or more.
-/

namespace Proctor

def nanosPerSecond : Nat := 1000000000

/-- `seconds` counts from the start of 1970 without leap seconds. -/
structure Instant where
  seconds : Int
  nanos : Nat
  nanos_lt : nanos < 2 * nanosPerSecond
  leap_only_at_end : nanosPerSecond ≤ nanos → seconds % 60 = 59
  deriving DecidableEq, Repr

namespace Instant

def ofSeconds (seconds : Int) : Instant :=
  ⟨seconds, 0, by decide, fun h => absurd h (by decide)⟩

instance : Inhabited Instant := ⟨ofSeconds 0⟩

def make? (seconds : Int) (nanos : Nat) : Option Instant :=
  if h : nanos < 2 * nanosPerSecond ∧ (nanosPerSecond ≤ nanos → seconds % 60 = 59) then
    some ⟨seconds, nanos, h.1, h.2⟩
  else none

/-- The whole seconds of the nearest second, a half going up. A leap second is rounded up into the
next minute and stays itself when rounded down. -/
def rounded (t : Instant) : Instant :=
  let fraction := t.nanos % nanosPerSecond
  if fraction = 0 then t
  else if nanosPerSecond ≤ 2 * fraction then ofSeconds (t.seconds + 1)
  else
    ⟨t.seconds, t.nanos - fraction, Nat.lt_of_le_of_lt (Nat.sub_le ..) t.nanos_lt,
      fun h => t.leap_only_at_end (Nat.le_trans h (Nat.sub_le ..))⟩

/-- A leap second before `a` on the same day counts as one more second between the two, and
likewise after it. -/
def leapsBetween (a b : Instant) : Int :=
  let timeOfDay (t : Instant) : Int := t.seconds % 86400
  if timeOfDay b < timeOfDay a ∧ nanosPerSecond ≤ b.nanos then 1
  else if timeOfDay a < timeOfDay b ∧ nanosPerSecond ≤ a.nanos then -1
  else 0

/-- Nanoseconds from `b` to `a`. -/
def since (a b : Instant) : Int :=
  (a.seconds - b.seconds + leapsBetween a b) * nanosPerSecond + (a.nanos - b.nanos)

/-- Whole seconds from `b` to `a`, the fraction dropped. -/
def secondsSince (a b : Instant) : Int :=
  (a.since b).tdiv nanosPerSecond

end Instant

end Proctor
