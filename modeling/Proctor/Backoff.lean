import Proctor.Time.Span

/-!
Repeating an operation until it succeeds, with a delay that doubles after each failure up to a
ceiling.
-/

namespace Proctor

/-- The longest span that delays are computed with. -/
def Span.longest : Span := ⟨UInt64.size * 1000000000 - 1⟩

structure Backoff where
  attempts : Nat := 10
  initial : Span := .ofSeconds 10
  ceiling : Span := .ofSeconds 300
  deriving DecidableEq, Repr

namespace Backoff

/-- The power of two for a number of failures; it stops growing at 32 bits. -/
def factor (failures : Nat) : Nat :=
  if failures - 1 < 32 then 1 <<< (failures - 1) else UInt32.size - 1

/-- The delay after a number of failures in a row, which counts from one. -/
def delay (b : Backoff) (failures : Nat) : Span :=
  ⟨min (min (b.initial.nanos * factor failures) Span.longest.nanos) b.ceiling.nanos⟩

/-- The first of all delays, when every attempt fails; `count` at most. -/
def delays (b : Backoff) (count : Nat) : List Span :=
  (List.range (min count (b.attempts - 1))).map fun i => b.delay (i + 1)

/-- One attempt, by its number, or one wait. -/
inductive Step
  | call (attempt : Nat)
  | sleep (delay : Span)
  deriving DecidableEq, Repr

/-- The result of the last attempt, and all that was done until then. -/
structure Run (ε α : Type) where
  result : Except ε α
  steps : List Step

/-- Makes attempt number `attempt` and, as long as attempts fail and more are allowed, those after it. -/
def retryFrom {ε α : Type} (b : Backoff) (operation : Nat → Except ε α) (attempt : Nat) : Run ε α :=
  match operation attempt with
  | .ok a => ⟨.ok a, [.call attempt]⟩
  | .error e =>
    if b.attempts ≤ attempt then ⟨.error e, [.call attempt]⟩
    else
      let run := b.retryFrom operation (attempt + 1)
      { run with steps := .call attempt :: .sleep (b.delay attempt) :: run.steps }
termination_by b.attempts - attempt

/-- At least one attempt is made. -/
def retry {ε α : Type} (b : Backoff) (operation : Nat → Except ε α) : Run ε α :=
  b.retryFrom operation 1

/-- The attempts with the times at which they are made, if nothing but waiting takes time. -/
def timed (elapsed : Span) : List Step → List (Nat × Span)
  | [] => []
  | .call attempt :: rest => (attempt, elapsed) :: timed elapsed rest
  | .sleep delay :: rest => timed ⟨elapsed.nanos + delay.nanos⟩ rest

def Run.calls {ε α : Type} (run : Run ε α) : List (Nat × Span) :=
  timed ⟨0⟩ run.steps

/-- The time of the last attempt. -/
def Run.elapsed {ε α : Type} (run : Run ε α) : Span :=
  (run.calls.getLast?.map (·.2)).getD ⟨0⟩

end Backoff

end Proctor
