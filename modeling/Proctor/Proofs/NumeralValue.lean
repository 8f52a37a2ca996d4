import Proctor.Proofs.Decimal
import Proctor.Proofs.NearestNumber

/-!
Reading a numeral as a number. A numeral whose digits fit in 64 bits is read in two steps: its digits
as one whole number, and that number scaled by the places and the exponent.

Main statement: `binary64?_eq`.
-/

namespace Proctor

namespace Decimal

theorem value_cons (d : Nat) (ds : List Nat) : value (d :: ds) = d * 10 ^ ds.length + value ds := by
  have h := value_append [d] ds
  simpa [value] using h

end Decimal

namespace Numeral

open Decimal (value)

theorem first_lt {a d : Nat} {ds : List Nat} {bound : Nat}
    (h : a * 10 ^ (d :: ds).length + value (d :: ds) < bound) :
    a * 10 + d < bound ∧ (a * 10 + d) * 10 ^ ds.length + value ds < bound := by
  rw [Decimal.value_cons, List.length_cons, pow_succ] at h
  have hpos : 0 < 10 ^ ds.length := by positivity
  have hall : (a * 10 + d) * 10 ^ ds.length + value ds < bound := by
    calc (a * 10 + d) * 10 ^ ds.length + value ds
        = a * (10 ^ ds.length * 10) + (d * 10 ^ ds.length + value ds) := by ring
      _ < bound := h
  have hfirst : a * 10 + d ≤ (a * 10 + d) * 10 ^ ds.length := Nat.le_mul_of_pos_right _ hpos
  exact ⟨by omega, hall⟩

theorem wholeSignificand_eq {a : Nat} {ds : List Nat}
    (h : a * 10 ^ ds.length + value ds < UInt64.size) :
    wholeSignificand a ds = (a * 10 ^ ds.length + value ds, 0) := by
  induction ds generalizing a with
  | nil => simp [wholeSignificand, value]
  | cons d ds ih =>
    obtain ⟨hfirst, hall⟩ := first_lt h
    rw [wholeSignificand, if_pos hfirst, ih hall, Decimal.value_cons, List.length_cons, pow_succ]
    congr 1
    ring

theorem fractionSignificand_eq {a : Nat} (places : Nat) {ds : List Nat}
    (h : a * 10 ^ ds.length + value ds < UInt64.size) :
    fractionSignificand a places ds = (a * 10 ^ ds.length + value ds, places + ds.length) := by
  induction ds generalizing a places with
  | nil => simp [fractionSignificand, value]
  | cons d ds ih =>
    obtain ⟨hfirst, hall⟩ := first_lt h
    rw [fractionSignificand, if_pos hfirst, ih _ hall, Decimal.value_cons, List.length_cons, pow_succ]
    congr 1
    · ring
    · omega

/-- All digits of a numeral. -/
def significand (n : Numeral) : Nat :=
  value (Decimal.digits n.whole ++ n.fraction)

theorem significand_eq (n : Numeral) :
    n.significand = n.whole * 10 ^ n.fraction.length + value n.fraction := by
  rw [significand, Decimal.value_append, Decimal.value_digits]

/-- No digit is lost when the digits fit in 64 bits. -/
theorem binary64?_eq {n : Numeral} (hdigits : n.significand < UInt64.size)
    (hexponent : (n.exponent.getD 0).natAbs ≤ exponentLimit) :
    n.binary64? = (Binary64.ofRatio? n.negative n.significand 1).bind fun x =>
      x.scale? (n.exponent.getD 0 - n.fraction.length) := by
  rw [significand_eq] at hdigits ⊢
  have hpos : 0 < 10 ^ n.fraction.length := by positivity
  have hwhole : 0 * 10 ^ (Decimal.digits n.whole).length + value (Decimal.digits n.whole) <
      UInt64.size := by
    have hle : n.whole ≤ n.whole * 10 ^ n.fraction.length := Nat.le_mul_of_pos_right _ hpos
    rw [Decimal.value_digits]
    omega
  have hread := wholeSignificand_eq hwhole
  rw [Nat.zero_mul, Nat.zero_add, Decimal.value_digits] at hread
  have hfraction := fractionSignificand_eq 0 hdigits
  unfold binary64?
  rw [hread]
  simp only [hfraction, Nat.zero_add, if_neg (Nat.not_lt.2 hexponent)]
  simp

/-- A whole number of 64 bits is read. -/
theorem binary64?_isSome_of_whole {n : Numeral} (hfraction : n.fraction = [])
    (hexponent : n.exponent = none) (hwhole : n.whole < UInt64.size) : n.binary64?.isSome = true := by
  have hsignificand : n.significand = n.whole := by
    rw [significand_eq, hfraction]
    simp [value]
  obtain ⟨x, hx⟩ := Binary64.exists_ofRatio?_whole n.negative hwhole
  have hlimit : (n.exponent.getD 0).natAbs ≤ exponentLimit := by
    rw [hexponent]
    exact Nat.zero_le _
  rw [binary64?_eq (hsignificand ▸ hwhole) hlimit, hsignificand, hx, hexponent, hfraction,
    Option.bind_some, Option.getD_none, List.length_nil, Nat.cast_zero, sub_zero,
    Binary64.scale?_zero]
  rfl

end Numeral

namespace Binary64

theorem search_digits_lt (i : Interval) (fuel : Nat) (g : Int) :
    ∀ d ∈ (i.search fuel g).digits, d < 10 := by
  induction fuel generalizing g with
  | zero => exact fun d hd => Decimal.digits_lt hd
  | succ fuel ih =>
    rw [Interval.search]
    split
    · exact fun d hd => Decimal.digits_lt hd
    · exact ih _

theorem trim_digits_subset (s : Shortest) : s.trim.digits ⊆ s.digits := by
  intro d hd
  have h := (List.dropWhile_sublist _).subset (List.mem_reverse.1 hd)
  exact List.mem_reverse.1 h

theorem shortest_digits_lt (x : Binary64) : ∀ d ∈ x.shortest.digits, d < 10 := by
  unfold shortest
  split
  · exact fun d hd => by cases hd
  · exact fun d hd => search_digits_lt _ _ _ d (trim_digits_subset _ hd)

end Binary64

namespace Numeral

/-- The places of a written number are digits. -/
theorem places_ofBinary64 (x : Binary64) : ∀ d ∈ (ofBinary64 x).fraction, d < 10 := by
  have hdigits := x.shortest_digits_lt
  unfold ofBinary64
  dsimp only
  split
  · simp
  · rename_i d ds h
    rw [h] at hdigits
    have htail : ∀ e ∈ ds, e < 10 := fun e he => hdigits e (.tail _ he)
    split_ifs
    · intro e he
      rcases List.mem_append.1 he with he | he
      · rw [List.eq_of_mem_replicate he]
        decide
      · exact hdigits e he
    · intro e he
      rw [List.mem_singleton.1 he]
      decide
    · exact fun e he => htail e (List.mem_of_mem_drop he)
    · exact htail

end Numeral

end Proctor
