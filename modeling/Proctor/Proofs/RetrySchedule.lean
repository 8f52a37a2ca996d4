import Mathlib.Algebra.Group.Nat.Defs
import Mathlib.Data.List.Range
import Proctor.Backoff

/-!
How often an operation is repeated and how long is waited in between. Attempts are made until one succeeds or
the last one that is allowed has failed, with one delay after each failure but the last. Delays double up to the
ceiling; that they are computed with a factor of 32 bits makes no difference where such a factor reaches the
ceiling.

Main statement: `retry_follows_schedule`, for every operation and all settings.
-/

namespace Proctor

namespace Backoff

variable {b : Backoff}

/-! ### Delays -/

theorem factor_of_le {k : Nat} (h : k ≤ 32) : factor k = 2 ^ (k - 1) := by
  rw [factor, if_pos (by omega), Nat.one_shiftLeft]

theorem factor_of_lt {k : Nat} (h : 32 < k) : factor k = 2 ^ 32 - 1 :=
  if_neg (by omega : ¬k - 1 < 32)

theorem factor_mono {j k : Nat} (h : j ≤ k) : factor j ≤ factor k := by
  by_cases hk : k ≤ 32
  · rw [factor_of_le hk, factor_of_le (h.trans hk)]
    exact Nat.pow_le_pow_right (by decide) (Nat.sub_le_sub_right h 1)
  · rw [factor_of_lt (Nat.lt_of_not_le hk)]
    by_cases hj : j ≤ 32
    · rw [factor_of_le hj]
      calc 2 ^ (j - 1) ≤ 2 ^ 31 := Nat.pow_le_pow_right (by decide) (by omega)
        _ ≤ 2 ^ 32 - 1 := by decide
    · rw [factor_of_lt (Nat.lt_of_not_le hj)]

theorem delay_le_ceiling (b : Backoff) (k : Nat) : (b.delay k).nanos ≤ b.ceiling.nanos :=
  Nat.min_le_right ..

theorem delay_mono (b : Backoff) {j k : Nat} (h : j ≤ k) : (b.delay j).nanos ≤ (b.delay k).nanos := by
  have hproduct : b.initial.nanos * factor j ≤ b.initial.nanos * factor k :=
    Nat.mul_le_mul_left _ (factor_mono h)
  simp only [delay]
  omega

/-- Where the factor is exact or reaches the ceiling, the delay is the doubled one below the ceiling. -/
theorem delay_eq {k : Nat} (hceiling : b.ceiling.nanos ≤ Span.longest.nanos)
    (h : k ≤ 32 ∨ b.ceiling.nanos ≤ b.initial.nanos * (2 ^ 32 - 1)) :
    (b.delay k).nanos = min b.ceiling.nanos (b.initial.nanos * 2 ^ (k - 1)) := by
  by_cases hk : k ≤ 32
  · rw [delay, factor_of_le hk]
    simp only
    omega
  · have hreached := h.resolve_left hk
    rw [delay, factor_of_lt (Nat.lt_of_not_le hk)]
    have hpower : 2 ^ 32 - 1 ≤ 2 ^ (k - 1) :=
      calc 2 ^ 32 - 1 ≤ 2 ^ 32 := Nat.sub_le ..
        _ ≤ 2 ^ (k - 1) := Nat.pow_le_pow_right (by decide) (by omega)
    have hproduct : b.initial.nanos * (2 ^ 32 - 1) ≤ b.initial.nanos * 2 ^ (k - 1) :=
      Nat.mul_le_mul_left _ hpower
    simp only
    omega

/-! ### Attempts -/

/-- Attempts up to number `last`, from number `first`, each but the first after its delay. -/
def schedule (b : Backoff) (first last : Nat) : List Step :=
  .call first :: (List.range' first (last - first)).flatMap fun k => [.sleep (b.delay k), .call (k + 1)]

theorem schedule_self (b : Backoff) (first : Nat) : b.schedule first first = [.call first] := by
  simp [schedule]

theorem schedule_succ {first last : Nat} (h : first < last) :
    b.schedule first last = .call first :: .sleep (b.delay first) :: b.schedule (first + 1) last := by
  obtain ⟨n, rfl⟩ := Nat.exists_eq_add_of_lt h
  rw [schedule, schedule, show first + n + 1 - first = n + 1 by omega,
    show first + n + 1 - (first + 1) = n by omega, List.range'_succ, List.flatMap_cons]
  rfl

def Step.sleep? : Step → Option Span
  | .call _ => none
  | .sleep delay => some delay

/-- All waits of a run. -/
def Run.sleeps {ε α : Type} (run : Run ε α) : List Span := run.steps.filterMap Step.sleep?

theorem sleeps_schedule (b : Backoff) (first last : Nat) :
    (b.schedule first last).filterMap Step.sleep? = (List.range' first (last - first)).map b.delay := by
  rw [schedule, List.filterMap_cons_none rfl, List.filterMap_flatMap, List.map_eq_flatMap]
  rfl

/-- All delays there are when every attempt fails. -/
theorem delays_attempts (b : Backoff) :
    b.delays b.attempts = (List.range' 1 (b.attempts - 1)).map b.delay := by
  rw [delays, Nat.min_eq_right (Nat.sub_le ..), List.range'_eq_map_range, List.map_map]
  simp [Function.comp_def, Nat.add_comm]

/-- Attempts end with the first that succeeds or with the last that is allowed, and make the schedule. -/
theorem exists_retryFrom {ε α : Type} (b : Backoff) (operation : Nat → Except ε α) (attempt : Nat) :
    ∃ last, attempt ≤ last ∧ last ≤ max b.attempts attempt ∧
      (∀ k, attempt ≤ k → k < last → ∃ e, operation k = .error e) ∧
      ((∃ a, operation last = .ok a) ∨ last = max b.attempts attempt) ∧
      b.retryFrom operation attempt = ⟨operation last, b.schedule attempt last⟩ := by
  fun_induction retryFrom b operation attempt with
  | case1 attempt a hok =>
    exact ⟨attempt, le_rfl, le_max_right .., by omega, .inl ⟨a, hok⟩, by rw [schedule_self, hok]⟩
  | case2 attempt e herror hspent =>
    exact ⟨attempt, le_rfl, le_max_right .., by omega, .inr (by omega), by rw [schedule_self, herror]⟩
  | case3 attempt e herror hmore run ih =>
    obtain ⟨last, hle, hlast, hfailed, hended, hrun⟩ := ih
    refine ⟨last, by omega, by omega, ?_, ?_, ?_⟩
    · intro k hk hbefore
      rcases Nat.eq_or_lt_of_le hk with rfl | hlater
      · exact ⟨e, herror⟩
      · exact hfailed k hlater hbefore
    · rwa [show max b.attempts attempt = max b.attempts (attempt + 1) by omega]
    · rw [schedule_succ hle]
      simp [run, hrun]

/-- The operation is called with the numbers 1, 2 and so on up to its first success or, if there is none, up to
the number of attempts allowed, at least once. The result is that of the last call, and the waits in between are
the first of all the delays there are. No delay exceeds the ceiling or a later delay, and each is the initial one
doubled so many times, but the ceiling at most, where 32 bits hold the factor or the largest factor reaches the
ceiling (which is a span that can be measured). -/
theorem retry_follows_schedule {ε α : Type} (b : Backoff) (operation : Nat → Except ε α) :
    (∃ last, 1 ≤ last ∧ last ≤ max b.attempts 1 ∧
      (∀ k, 1 ≤ k → k < last → ∃ e, operation k = .error e) ∧
      ((∃ a, operation last = .ok a) ∨ last = max b.attempts 1) ∧
      (b.retry operation).result = operation last ∧
      (b.retry operation).steps = b.schedule 1 last ∧
      (b.retry operation).sleeps = (List.range' 1 (last - 1)).map b.delay ∧
      (b.retry operation).sleeps <+: b.delays b.attempts) ∧
    ∀ k, 1 ≤ k →
      (b.delay k).nanos ≤ b.ceiling.nanos ∧
      (∀ j, k ≤ j → (b.delay k).nanos ≤ (b.delay j).nanos) ∧
      (b.ceiling.nanos ≤ Span.longest.nanos →
        k ≤ 32 ∨ b.ceiling.nanos ≤ b.initial.nanos * (2 ^ 32 - 1) →
        (b.delay k).nanos = min b.ceiling.nanos (b.initial.nanos * 2 ^ (k - 1))) := by
  constructor
  · obtain ⟨last, hfirst, hlast, hfailed, hended, hrun⟩ := exists_retryFrom b operation 1
    have hsleeps : (b.retry operation).sleeps = (List.range' 1 (last - 1)).map b.delay := by
      rw [Run.sleeps, retry, hrun, sleeps_schedule]
    refine ⟨last, hfirst, hlast, hfailed, hended, by rw [retry, hrun], by rw [retry, hrun], hsleeps, ?_⟩
    obtain ⟨more, hmore⟩ := Nat.exists_eq_add_of_le (show last - 1 ≤ b.attempts - 1 by omega)
    rw [hsleeps, delays_attempts, hmore, ← List.range'_append_1]
    exact (List.prefix_append ..).map b.delay
  · intro k _
    exact ⟨delay_le_ceiling b k, fun j => delay_mono b, delay_eq⟩

/-- An operation that succeeds the third time. -/
def thirdTime (attempt : Nat) : Except String Nat :=
  if attempt < 3 then .error "failed" else .ok attempt

/-- It is called three times, and the ceiling shortens the second wait. -/
theorem thirdTime_called_thrice :
    let b : Backoff := { attempts := 4, initial := .ofSeconds 10, ceiling := .ofSeconds 15 }
    b.ceiling.nanos ≤ Span.longest.nanos ∧ (b.retry thirdTime).result.toOption = some 3 ∧
      (b.retry thirdTime).sleeps = [.ofSeconds 10, .ofSeconds 15] ∧
      (b.delay 40).nanos = min b.ceiling.nanos (b.initial.nanos * 2 ^ 39) := by
  intro b
  have hceiling : b.ceiling.nanos ≤ Span.longest.nanos := by decide
  obtain ⟨⟨last, hfirst, hlast, hfailed, hended, hresult, -, hsleeps, -⟩, hdelays⟩ :=
    retry_follows_schedule b thirdTime
  obtain ⟨-, -, hdoubled⟩ := hdelays 40 (by decide)
  have hthird : last = 3 := by
    have hnot : ¬3 < last := fun hlt => by
      obtain ⟨e, he⟩ := hfailed 3 (by decide) hlt
      cases he
    have hsucceeded : ¬last < 3 := fun hlt => by
      rcases hended with ⟨a, ha⟩ | hspent
      · rw [thirdTime, if_pos hlt] at ha
        cases ha
      · exact absurd (hspent ▸ hlt) (by decide)
    omega
  rw [hresult, hsleeps, hthird]
  exact ⟨hceiling, rfl, by decide, hdoubled hceiling (.inr (by decide))⟩

end Backoff

end Proctor
