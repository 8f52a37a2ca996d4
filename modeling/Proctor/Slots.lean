/-!
The slots of a host: at most as many sessions as its capacity run at once, and the others wait in the
order in which they came.
-/

namespace Proctor

/-- Nobody waits while a slot is free. -/
structure Slots (α : Type) where
  capacity : Nat
  held : List α := []
  waiting : List α := []
  held_le : held.length ≤ capacity := by exact Nat.zero_le _
  held_eq_of_waiting : waiting ≠ [] → held.length = capacity := by exact fun h => absurd rfl h
  deriving DecidableEq, Repr

namespace Slots

variable {α : Type} [DecidableEq α]

def free (s : Slots α) : Nat :=
  s.capacity - s.held.length

def acquire (s : Slots α) (who : α) : Slots α :=
  if h : s.held.length < s.capacity then
    { s with
      held := s.held ++ [who]
      held_le := by rw [List.length_append, List.length_singleton]; omega
      held_eq_of_waiting := fun w => absurd (s.held_eq_of_waiting w) (by omega) }
  else
    { s with
      waiting := s.waiting ++ [who]
      held_eq_of_waiting := fun _ => by have := s.held_le; omega }

/-- Releasing a slot that is not held does nothing. The first that waits gets the slot. -/
def release (s : Slots α) (who : α) : Slots α :=
  if h : who ∈ s.held then
    match w : s.waiting with
    | [] =>
      { s with
        held := s.held.erase who
        held_le := by have := s.held_le; rw [List.length_erase_of_mem h]; omega
        held_eq_of_waiting := fun h => absurd w h }
    | next :: waiting =>
      { s with
        held := s.held.erase who ++ [next]
        waiting
        held_le := by
          have := s.held_le
          have := List.length_pos_of_mem h
          rw [List.length_append, List.length_erase_of_mem h, List.length_singleton]
          omega
        held_eq_of_waiting := fun _ => by
          have := s.held_eq_of_waiting (by simp [w])
          have := List.length_pos_of_mem h
          rw [List.length_append, List.length_erase_of_mem h, List.length_singleton]
          omega }
  else s

end Slots

end Proctor
