import Proctor.Binary64.Text
import Proctor.Proofs.NumeralValue

/-!
The shortest digits of a number. They are found among decimals that are rounded to the number, so the
number is the nearest one to the value of its digits, and numbers with the same plain text are equal.

Main statements: `nearest_shortest`, `plainText_injective`.
-/

namespace Proctor

namespace Decimal

theorem value_lt_pow {ds : List Nat} (h : ∀ d ∈ ds, d < 10) : value ds < 10 ^ ds.length := by
  induction ds with
  | nil => decide
  | cons d ds ih =>
    have htail := ih fun e he => h e (.tail _ he)
    have hd : d ≤ 9 := Nat.le_of_lt_succ (h d (.head _))
    have hle := Nat.mul_le_mul_right (10 ^ ds.length) hd
    rw [value_cons, List.length_cons, pow_succ]
    omega

/-- A number is below the power of ten with as many zeros as the number has digits, and not below the
one with one zero less. -/
theorem exists_length_digits {n : Nat} (hn : 0 < n) :
    ∃ k, (digits n).length = k + 1 ∧ 10 ^ k ≤ n ∧ n < 10 ^ (k + 1) := by
  obtain ⟨d, ds, hdigits, hd⟩ := digits_head hn.ne'
  have hlength : (digits n).length = ds.length + 1 := by rw [hdigits, List.length_cons]
  have hlt : value (digits n) < 10 ^ (digits n).length := value_lt_pow fun _ => digits_lt
  rw [value_digits, hlength] at hlt
  refine ⟨ds.length, hlength, ?_, hlt⟩
  have hvalue := value_digits n
  rw [hdigits, value_cons] at hvalue
  have hle := Nat.le_mul_of_pos_left (10 ^ ds.length) (Nat.pos_of_ne_zero hd)
  omega

end Decimal

namespace Binary64

/-! ### The interval of a number -/

theorem den_pos (x : Binary64) : 0 < x.interval.den := by
  simp [interval, Nat.shiftLeft_eq]

/-- The two scales of an interval make a quarter of a power of two. -/
theorem scales_eq (e : Int) :
    ((1 <<< e.toNat : Nat) : ℚ) / (4 <<< (-e).toNat : Nat) = 2 ^ e / 4 := by
  rw [cast_shiftLeft, cast_shiftLeft]
  rcases le_total 0 e with h | h
  · obtain ⟨k, rfl⟩ := Int.eq_ofNat_of_zero_le h
    rw [show (-(k : Int)).toNat = 0 by omega, Int.toNat_natCast, zpow_natCast]
    norm_num
  · obtain ⟨k, hk⟩ := Int.eq_ofNat_of_zero_le (show 0 ≤ -e by omega)
    have he : e = -(k : Int) := by omega
    subst he
    rw [show (- -(k : Int)).toNat = k by omega, show (-(k : Int)).toNat = 0 by omega, zpow_neg,
      zpow_natCast]
    push_cast
    field_simp

theorem mul_scale (n : Nat) (e : Int) :
    ((n * 1 <<< e.toNat : Nat) : ℚ) / (4 <<< (-e).toNat : Nat) = n * 2 ^ e / 4 := by
  rw [Nat.cast_mul, mul_div_assoc, scales_eq, mul_div_assoc]

theorem interval_value (x : Binary64) : (x.interval.value : ℚ) / x.interval.den = x.size := by
  have h := mul_scale (4 * x.significand) x.exponent
  rw [show x.size = x.significand * 2 ^ x.exponent from rfl]
  rw [show x.interval.value = 4 * x.significand * 1 <<< x.exponent.toNat from rfl,
    show x.interval.den = 4 <<< (-x.exponent).toNat from rfl, h]
  push_cast
  ring

/-- The place of a number, with its parts. -/
theorem place (x : Binary64) :
    ∃ j r, x.magnitude = j * binade + r ∧ r < 2 * binade ∧ (j = 0 ∨ binade ≤ r) ∧
      x.significand = r ∧ (2 : ℚ) ^ x.exponent = spacing j := by
  obtain ⟨j, r, hx, hr, h⟩ := exists_place x.magnitude
  refine ⟨j, r, hx, hr, h, ?_, ?_⟩
  · rw [show x.significand = significandAt x.magnitude from rfl, hx, significandAt_place hr h]
  · rw [show x.exponent = exponentAt x.magnitude from rfl, hx, exponentAt_place hr h, spacing]

theorem interval_high (x : Binary64) :
    (x.interval.high : ℚ) / x.interval.den = halfway x.magnitude := by
  obtain ⟨j, r, hx, hr, h, hsignificand, hspacing⟩ := x.place
  have hscale := mul_scale (4 * x.significand + 2) x.exponent
  rw [show x.interval.high = (4 * x.significand + 2) * 1 <<< x.exponent.toNat from rfl,
    show x.interval.den = 4 <<< (-x.exponent).toNat from rfl, hscale, hsignificand, hspacing, hx,
    halfway_place hr h]
  push_cast
  ring

theorem interval_low (x : Binary64) {l : Nat} (hl : x.magnitude = l + 1) :
    (x.interval.low : ℚ) / x.interval.den = halfway l := by
  obtain ⟨j, r, hx, hr, h, hsignificand, hspacing⟩ := x.place
  have hplace : l + 1 = j * binade + r := hl.symm.trans hx
  have hlow (below : Nat) (hbelow : below ≤ 4 * r)
      (hinterval : x.interval.low = (4 * x.significand - below) * 1 <<< x.exponent.toNat) :
      (x.interval.low : ℚ) / x.interval.den = (r - below / 4) * spacing j := by
    have hscale := mul_scale (4 * x.significand - below) x.exponent
    rw [hinterval, show x.interval.den = 4 <<< (-x.exponent).toNat from rfl, hscale, hsignificand,
      hspacing, Nat.cast_sub hbelow]
    push_cast
    ring
  by_cases hhalved : x.significand = binade ∧ 2 * binade ≤ x.magnitude
  · obtain ⟨hstart, hlarge⟩ := hhalved
    have hr1 : r = binade := by omega
    have hj : j ≠ 0 := by
      rintro rfl
      omega
    obtain ⟨i, rfl⟩ := Nat.exists_eq_add_of_le' (Nat.pos_of_ne_zero hj)
    subst hr1
    rw [hlow 1 (by decide) (by simp [interval, hstart, hlarge]), halfway_below_binade hplace]
    push_cast
    ring
  · have hbefore : j = 0 ∨ binade < r := by
      by_contra hnot
      rw [not_or, not_lt] at hnot
      obtain ⟨hj, hle⟩ := hnot
      have hle' : binade ≤ j * binade := Nat.le_mul_of_pos_left _ (Nat.pos_of_ne_zero hj)
      exact hhalved (by omega)
    have hr1 : 1 ≤ r := by
      rcases hbefore with rfl | hlt <;> omega
    rw [hlow 2 (by omega) (by simp only [interval, if_neg hhalved]),
      halfway_below_place hplace hr.le hbefore]
    push_cast
    ring

theorem interval_closed (x : Binary64) : x.interval.closed = decide (x.magnitude % 2 = 0) := by
  obtain ⟨j, r, hx, hr, h, hsignificand, hspacing⟩ := x.place
  have hparity : x.significand % 2 = x.magnitude % 2 := by
    rw [hsignificand, hx]
    unfold binade
    omega
  rw [← hparity]
  rfl

theorem mul_le_mul_iff_div {a b c d : Nat} (hb : 0 < b) (hd : 0 < d) :
    a * d ≤ c * b ↔ (a : ℚ) / b ≤ c / d := by
  rw [div_le_div_iff₀ (by positivity) (by positivity)]
  exact_mod_cast Iff.rfl

theorem mul_lt_mul_iff_div {a b c d : Nat} (hb : 0 < b) (hd : 0 < d) :
    a * d < c * b ↔ (a : ℚ) / b < c / d := by
  rw [div_lt_div_iff₀ (by positivity) (by positivity)]
  exact_mod_cast Iff.rfl

/-- An interval holds what is rounded to its number. -/
theorem contains_iff_nearest {x : Binary64} (hx : x.magnitude ≠ 0) (n : Nat) {d : Nat} (hd : 0 < d) :
    x.interval.contains n d = true ↔ Nearest ((n : ℚ) / d) x.magnitude := by
  obtain ⟨l, hl⟩ := Nat.exists_eq_add_of_le' (Nat.pos_of_ne_zero hx)
  have hden := x.den_pos
  have hlow := x.interval_low hl
  have hhigh := x.interval_high
  have honly {l' : Nat} (h : x.magnitude = l' + 1) : l' = l := by omega
  by_cases heven : x.magnitude % 2 = 0
  · have hclosed : x.interval.closed = true := by simp [interval_closed, heven]
    simp only [Interval.contains, hclosed, if_true, Bool.and_eq_true, decide_eq_true_eq,
      mul_le_mul_iff_div hden hd, mul_le_mul_iff_div hd hden, hlow, hhigh]
    constructor
    · rintro ⟨hle, hge⟩
      exact ⟨fun l' h => honly h ▸ ⟨hle, fun _ => heven⟩, hge, fun _ => heven⟩
    · intro h
      exact ⟨(h.low l hl).1, h.high.1⟩
  · have hopen : x.interval.closed = false := by simp [interval_closed, heven]
    simp only [Interval.contains, hopen, Bool.false_eq_true, if_false, Bool.and_eq_true,
      decide_eq_true_eq, mul_lt_mul_iff_div hden hd, mul_lt_mul_iff_div hd hden, hlow, hhigh]
    constructor
    · rintro ⟨hlt, hgt⟩
      exact ⟨fun l' h => honly h ▸ ⟨hlt.le, fun he => absurd he hlt.ne⟩, hgt.le,
        fun he => absurd he hgt.ne⟩
    · intro h
      exact ⟨lt_of_le_of_ne (h.low l hl).1 fun he => heven ((h.low l hl).2 he),
        lt_of_le_of_ne h.high.1 fun he => heven (h.high.2 he)⟩

/-! ### The search -/

/-- A multiple of a power of ten, as the search compares it. -/
theorem multiple_eq (c : Nat) (g : Int) :
    ((c * Nat.pow 10 g.toNat : Nat) : ℚ) / (Nat.pow 10 (-g).toNat : Nat) = c * 10 ^ g := by
  rcases le_total 0 g with h | h
  · obtain ⟨k, rfl⟩ := Int.eq_ofNat_of_zero_le h
    rw [show (-(k : Int)).toNat = 0 by omega, Int.toNat_natCast, zpow_natCast]
    simp
  · obtain ⟨k, hk⟩ := Int.eq_ofNat_of_zero_le (show 0 ≤ -g by omega)
    have hg : g = -(k : Int) := by omega
    subst hg
    rw [show (- -(k : Int)).toNat = k by omega, show (-(k : Int)).toNat = 0 by omega, zpow_neg,
      zpow_natCast]
    simp [div_eq_mul_inv]

theorem contains_multiple_iff {x : Binary64} (hx : x.magnitude ≠ 0) (c : Nat) (g : Int) :
    x.interval.contains (c * Nat.pow 10 g.toNat) (Nat.pow 10 (-g).toNat) = true ↔
      Nearest (c * 10 ^ g) x.magnitude := by
  have hpos : 0 < Nat.pow 10 (-g).toNat := Nat.pow_pos (by decide)
  rw [contains_iff_nearest hx _ hpos, multiple_eq]

/-- The multiple of a power of ten below a number. -/
def floorAt (x : Binary64) (g : Int) : Nat :=
  x.interval.value * Nat.pow 10 (-g).toNat / (x.interval.den * Nat.pow 10 g.toNat)

theorem floorAt_spec (x : Binary64) (g : Int) :
    x.floorAt g * 10 ^ g ≤ x.size ∧ x.size < (x.floorAt g + 1) * 10 ^ g := by
  have hup : 0 < Nat.pow 10 g.toNat := Nat.pow_pos (by decide)
  have hdown : 0 < Nat.pow 10 (-g).toNat := Nat.pow_pos (by decide)
  have hden := x.den_pos
  obtain ⟨a, ha⟩ : ∃ a, a = x.interval.value * Nat.pow 10 (-g).toNat := ⟨_, rfl⟩
  obtain ⟨b, hb⟩ : ∃ b, b = x.interval.den * Nat.pow 10 g.toNat := ⟨_, rfl⟩
  have hbpos : 0 < b := hb ▸ Nat.mul_pos hden hup
  have hpower := multiple_eq 1 g
  rw [Nat.one_mul, Nat.cast_one, one_mul] at hpower
  have hsize : x.size = a / b * 10 ^ g := by
    have hden' : (x.interval.den : ℚ) ≠ 0 := by positivity
    have hup' : ((Nat.pow 10 g.toNat : Nat) : ℚ) ≠ 0 := by exact_mod_cast hup.ne'
    have hdown' : ((Nat.pow 10 (-g).toNat : Nat) : ℚ) ≠ 0 := by exact_mod_cast hdown.ne'
    rw [← interval_value, ← hpower, ha, hb, Nat.cast_mul, Nat.cast_mul]
    field_simp
  have hfloor : x.floorAt g = a / b := by rw [floorAt, ha, hb]
  have hbpos' : (0 : ℚ) < b := by positivity
  have hgpos : (0 : ℚ) < 10 ^ g := by positivity
  rw [hsize, hfloor]
  constructor
  · rw [mul_le_mul_iff_left₀ hgpos, le_div_iff₀ hbpos']
    exact_mod_cast Nat.div_mul_le_self a b
  · rw [mul_lt_mul_iff_left₀ hgpos, div_lt_iff₀ hbpos']
    have hlt := Nat.lt_mul_div_succ a hbpos
    rw [Nat.mul_comm] at hlt
    exact_mod_cast hlt

/-- The search takes the multiple below the number or the one above it, if that is in the interval. -/
theorem nearest?_spec {x : Binary64} (hx : x.magnitude ≠ 0) {g : Int} {c : Nat}
    (h : x.interval.nearest? g = some c) :
    Nearest (c * 10 ^ g) x.magnitude ∧ (c = x.floorAt g ∨ c = x.floorAt g + 1) := by
  have hits (c : Nat) := contains_multiple_iff hx c g
  unfold Interval.nearest? at h
  dsimp only at h
  rw [← floorAt] at h
  split at h
  · rename_i hbelow habove
    cases h
    exact ⟨(hits _).1 hbelow, .inl rfl⟩
  · rename_i hbelow habove
    cases h
    exact ⟨(hits _).1 habove, .inr rfl⟩
  · cases h
  · rename_i hbelow habove
    have hchoice : c = x.floorAt g ∨ c = x.floorAt g + 1 := by
      split at h
      · cases h
        exact .inl rfl
      · split at h
        · cases h
          exact .inr rfl
        · cases h
          omega
    refine ⟨?_, hchoice⟩
    rcases hchoice with rfl | rfl
    · exact (hits _).1 hbelow
    · exact (hits _).1 habove

theorem nearest?_isSome {x : Binary64} (hx : x.magnitude ≠ 0) {g : Int}
    (h : Nearest (x.floorAt g * 10 ^ g) x.magnitude) : (x.interval.nearest? g).isSome = true := by
  have hbelow := (contains_multiple_iff hx (x.floorAt g) g).2 h
  unfold Interval.nearest?
  dsimp only
  rw [← floorAt, hbelow]
  split
  · rfl
  · rfl
  · rename_i hnot _
    cases hnot
  · split_ifs <;> rfl

/-- Numbers keep a distance of their size over `2 ^ 54` from what is rounded to the number below. -/
theorem halfway_le_size_sub (x : Binary64) {l : Nat} (hl : x.magnitude = l + 1) :
    halfway l ≤ x.size - x.size / 2 ^ 54 := by
  obtain ⟨j, r, hx, hr, h, -, -⟩ := x.place
  have hplace : l + 1 = j * binade + r := hl.symm.trans hx
  have hsize : x.size = r * spacing j := by rw [size, hx, sizeAt_place hr.le h]
  have hspacing := spacing_pos j
  have hbinade : (binade : ℚ) = 2 ^ 52 := by norm_num [binade]
  have hlt : (r : ℚ) < 2 * binade := by exact_mod_cast hr
  rw [hsize]
  by_cases hbefore : j = 0 ∨ binade < r
  · rw [halfway_below_place hplace hr.le hbefore]
    have hle : (r : ℚ) / 2 ^ 54 ≤ 1 / 2 := by
      rw [div_le_iff₀ (by norm_num)]
      rw [hbinade] at hlt
      norm_num at hlt ⊢
      linarith
    calc ((r : ℚ) - 1 / 2) * spacing j ≤ (r - r / 2 ^ 54) * spacing j := by gcongr
      _ = r * spacing j - r * spacing j / 2 ^ 54 := by ring
  · rw [not_or, not_lt] at hbefore
    have hr1 : r = binade := by
      rcases h with h | h
      · exact absurd h hbefore.1
      · omega
    obtain ⟨i, rfl⟩ := Nat.exists_eq_add_of_le' (Nat.pos_of_ne_zero hbefore.1)
    subst hr1
    rw [halfway_below_binade hplace, hbinade]
    linarith

/-- On a grid that is fine enough the multiple below a number is rounded to it. -/
theorem nearest_floorAt {x : Binary64} {g : Int} (hg : 10 ^ g ≤ x.size / 2 ^ 54) :
    Nearest (x.floorAt g * 10 ^ g) x.magnitude := by
  obtain ⟨hle, hlt⟩ := x.floorAt_spec g
  have habove := sizeAt_lt_halfway x.magnitude
  rw [add_mul, one_mul] at hlt
  constructor
  · intro l hl
    have hbelow := x.halfway_le_size_sub hl
    exact ⟨by linarith, fun he => by linarith⟩
  · have hsize : x.floorAt g * 10 ^ g < halfway x.magnitude := hle.trans_lt habove
    exact ⟨hsize.le, fun he => absurd he hsize.ne⟩

/-- The power of ten above a ratio, and another one not far below it. -/
theorem decimalBound_spec {n d : Nat} (hn : 0 < n) (hd : 0 < d) :
    (10 : ℚ) ^ (decimalBound n d - 2) ≤ n / d ∧ (n : ℚ) / d < 10 ^ decimalBound n d := by
  have hd' : (0 : ℚ) < d := by positivity
  unfold decimalBound
  split
  · rename_i hle
    obtain ⟨k, hk, hlow, hhigh⟩ := Decimal.exists_length_digits (Nat.div_pos hle hd)
    rw [hk]
    constructor
    · have hmul : 10 ^ k * d ≤ n := (Nat.mul_le_mul_right d hlow).trans (Nat.div_mul_le_self n d)
      have hmul' : (10 : ℚ) ^ k * d ≤ n := by exact_mod_cast hmul
      calc (10 : ℚ) ^ (((k + 1 : Nat) : Int) - 2) ≤ 10 ^ (k : Int) :=
            zpow_le_zpow_right₀ (by norm_num) (by omega)
        _ = 10 ^ k := zpow_natCast 10 k
        _ ≤ n / d := by rwa [le_div_iff₀ hd']
    · have hmul : n < 10 ^ (k + 1) * d := (Nat.div_lt_iff_lt_mul hd).1 hhigh
      rw [zpow_natCast, div_lt_iff₀ hd']
      exact_mod_cast hmul
  · rename_i hlt
    obtain ⟨k, hk, hlow, hhigh⟩ := Decimal.exists_length_digits (Nat.div_pos (show n ≤ d - 1 by omega) hn)
    rw [hk]
    constructor
    · have hmul : d - 1 < 10 ^ (k + 1) * n := (Nat.div_lt_iff_lt_mul hn).1 hhigh
      have hmul' : (d : ℚ) ≤ 10 ^ (k + 1) * n := by
        have hle : d ≤ 10 ^ (k + 1) * n := by omega
        exact_mod_cast hle
      rw [show 1 - ((k + 1 : Nat) : Int) + 1 - 2 = -((k + 1 : Nat) : Int) by omega, zpow_neg,
        zpow_natCast, le_div_iff₀ hd', inv_mul_le_iff₀ (by positivity)]
      exact hmul'
    · have hmul : 10 ^ k * n ≤ d - 1 :=
        (Nat.mul_le_mul_right n hlow).trans (Nat.div_mul_le_self (d - 1) n)
      have hmul' : (10 : ℚ) ^ k * n < d := by
        have hlt : 10 ^ k * n < d := by omega
        exact_mod_cast hlt
      calc (n : ℚ) / d < 10 ^ (-(k : Int)) := by
            rwa [div_lt_iff₀ hd', zpow_neg, zpow_natCast, lt_inv_mul_iff₀ (by positivity)]
        _ ≤ 10 ^ (1 - ((k + 1 : Nat) : Int) + 1) := zpow_le_zpow_right₀ (by norm_num) (by omega)

/-- The search ends at the first grid on which there is a hit. -/
theorem search_eq {i : Interval} (fuel : Nat) {g : Int}
    (h : ∃ k < fuel, (i.nearest? (g - k)).isSome = true) :
    ∃ k < fuel, ∃ c, i.nearest? (g - k) = some c ∧ i.search fuel g = ⟨Decimal.digits c, g - k⟩ := by
  induction fuel generalizing g with
  | zero =>
    obtain ⟨k, hk, -⟩ := h
    cases hk
  | succ fuel ih =>
    obtain ⟨k, hk, hsome⟩ := h
    rw [Interval.search]
    cases hfirst : i.nearest? g with
    | some c =>
      refine ⟨0, Nat.succ_pos _, c, ?_, ?_⟩
      · rw [Nat.cast_zero, sub_zero, hfirst]
      · simp
    | none =>
      have hpos : k ≠ 0 := by
        rintro rfl
        rw [Nat.cast_zero, sub_zero, hfirst] at hsome
        cases hsome
      obtain ⟨k, rfl⟩ := Nat.exists_eq_add_of_le' (Nat.pos_of_ne_zero hpos)
      have hshift (k : Nat) : g - (k + 1 : Nat) = g - 1 - k := by
        push_cast
        ring
      rw [hshift] at hsome
      obtain ⟨k', hk', c, hc, hsearch⟩ := ih ⟨k, by omega, hsome⟩
      exact ⟨k' + 1, by omega, c, by rw [hshift, hc], by rw [hshift]; exact hsearch⟩

theorem size_pos {x : Binary64} (hx : x.magnitude ≠ 0) : 0 < x.size := by
  have h := sizeAt_strictMono (Nat.pos_of_ne_zero hx)
  rwa [sizeAt_zero] at h

/-- The digits found for a number, before the zeros at their end are left out. -/
structure Found (x : Binary64) (c : Nat) (g : Int) : Prop where
  shortest : x.shortest = Shortest.trim ⟨Decimal.digits c, g⟩
  nearest : Nearest (c * 10 ^ g) x.magnitude
  digits : c < UInt64.size

/-- Below a power of ten there are at most nineteen digits down to the nineteenth place. -/
theorem floorAt_lt {x : Binary64} {b : Int} (hb : x.size < 10 ^ b) {k : Nat} (hk : k ≤ 19) :
    x.floorAt (b - k) < 10 ^ 19 := by
  have hpos : (0 : ℚ) < 10 ^ (b - k) := by positivity
  have hlt : (x.floorAt (b - k) : ℚ) * 10 ^ (b - k) < 10 ^ 19 * 10 ^ (b - k) := by
    calc (x.floorAt (b - k) : ℚ) * 10 ^ (b - k) ≤ x.size := (x.floorAt_spec (b - k)).1
      _ < 10 ^ b := hb
      _ = 10 ^ (k : Int) * 10 ^ (b - k) := by
        rw [← zpow_add₀ (by norm_num)]
        congr 1
        ring
      _ ≤ 10 ^ (19 : Int) * 10 ^ (b - k) := by
        gcongr
        · norm_num
        · omega
      _ = 10 ^ 19 * 10 ^ (b - k) := by norm_num
  rw [mul_lt_mul_iff_left₀ hpos] at hlt
  exact_mod_cast hlt

/-- Nineteen digits are always enough. -/
theorem nearest?_nineteenth {x : Binary64} (hx : x.magnitude ≠ 0) {b : Int}
    (hb : 10 ^ (b - 2) ≤ x.size) : (x.interval.nearest? (b - (19 : Nat))).isSome = true := by
  apply nearest?_isSome hx
  apply nearest_floorAt
  rw [le_div_iff₀ (by norm_num)]
  calc (10 : ℚ) ^ (b - (19 : Nat)) * 2 ^ 54 ≤ 10 ^ (b - (19 : Nat)) * 10 ^ (17 : Int) := by
        gcongr
        norm_num
    _ = 10 ^ (b - 2) := by
      rw [← zpow_add₀ (by norm_num)]
      congr 1
      push_cast
      ring
    _ ≤ x.size := hb

theorem exists_found {x : Binary64} (hx : x.magnitude ≠ 0) : ∃ c g, Found x c g := by
  have hden := x.den_pos
  have hvalue : 0 < x.interval.value := by
    refine Nat.pos_of_ne_zero fun hzero => (size_pos hx).ne' ?_
    rw [← interval_value, hzero, Nat.cast_zero, zero_div]
  obtain ⟨bound, hbound⟩ : ∃ b, b = decimalBound x.interval.value x.interval.den := ⟨_, rfl⟩
  have hspec := decimalBound_spec hvalue hden
  rw [interval_value, ← hbound] at hspec
  obtain ⟨k, hk, c, hc, hsearch⟩ := search_eq 20 ⟨19, by decide, nearest?_nineteenth hx hspec.1⟩
  obtain ⟨hnearest, hchoice⟩ := nearest?_spec hx hc
  have hfloor := floorAt_lt hspec.2 (show k ≤ 19 by omega)
  refine ⟨c, bound - k, ?_, hnearest, ?_⟩
  · rw [Binary64.shortest, if_neg hx]
    dsimp only
    rw [← hbound, hsearch]
  · simp only [UInt64.size]
    omega

/-! ### Digits without the zeros at their end -/

theorem trim_spec (s : Shortest) :
    ∃ k : Nat, s.digits = s.trim.digits ++ List.replicate k 0 ∧ s.trim.exponent = s.exponent + k := by
  obtain ⟨zeros, hzeros⟩ : ∃ l, l = s.digits.reverse.takeWhile (· == 0) := ⟨_, rfl⟩
  have hsplit : s.digits.reverse = zeros ++ s.trim.digits.reverse := by
    rw [hzeros, Shortest.trim, List.reverse_reverse, List.takeWhile_append_dropWhile]
  have hreplicate : zeros = List.replicate zeros.length 0 := by
    apply List.eq_replicate_of_mem
    intro d hd
    rw [hzeros] at hd
    simpa using List.all_eq_true.1 List.all_takeWhile d hd
  have hdigits : s.digits = s.trim.digits ++ List.replicate zeros.length 0 := by
    have h := congrArg List.reverse hsplit
    rw [List.reverse_reverse, List.reverse_append, List.reverse_reverse, hreplicate,
      List.reverse_replicate] at h
    simpa using h
  refine ⟨zeros.length, hdigits, ?_⟩
  have hlength := congrArg List.length hdigits
  rw [List.length_append, List.length_replicate] at hlength
  show s.exponent + ((s.digits.length - s.trim.digits.length : Nat) : Int) = _
  congr 2
  omega

/-- The value of digits. -/
def Shortest.size (s : Shortest) : ℚ :=
  Decimal.value s.digits * 10 ^ s.exponent

theorem size_trim (s : Shortest) : s.trim.size = s.size := by
  obtain ⟨k, hdigits, hexponent⟩ := trim_spec s
  rw [Shortest.size, Shortest.size, hexponent, hdigits, Decimal.value_append_zeros,
    zpow_add₀ (by norm_num), zpow_natCast]
  push_cast
  ring

/-- A number is the nearest one to the value of its shortest digits. -/
theorem nearest_shortest {x : Binary64} (hx : x.magnitude ≠ 0) : Nearest x.shortest.size x.magnitude := by
  obtain ⟨c, g, h⟩ := exists_found hx
  rw [h.shortest, size_trim, Shortest.size, Decimal.value_digits]
  exact h.nearest

theorem shortest_digits_ne_nil {x : Binary64} (hx : x.magnitude ≠ 0) : x.shortest.digits ≠ [] := by
  intro hnil
  have h := nearest_shortest hx
  rw [Shortest.size, hnil] at h
  simp only [Decimal.value, List.foldl_nil, Nat.cast_zero, zero_mul] at h
  exact hx (nearest_zero.unique h).symm

theorem value_shortest_lt {x : Binary64} (hx : x.magnitude ≠ 0) :
    Decimal.value x.shortest.digits < UInt64.size := by
  obtain ⟨c, g, h⟩ := exists_found hx
  obtain ⟨k, hdigits, -⟩ := trim_spec ⟨Decimal.digits c, g⟩
  have hvalue := congrArg Decimal.value hdigits
  rw [Decimal.value_append_zeros, Decimal.value_digits, ← h.shortest] at hvalue
  have hle := Nat.le_mul_of_pos_right (Decimal.value x.shortest.digits)
    (show 0 < 10 ^ k by positivity)
  exact (hvalue ▸ hle).trans_lt h.digits

/-! ### The plain text -/

/-- Digits before and after a decimal point. -/
structure Positional (whole fraction : List Nat) (v : ℚ) : Prop where
  whole_ne_nil : whole ≠ []
  whole_lt : ∀ d ∈ whole, d < 10
  fraction_lt : ∀ d ∈ fraction, d < 10
  value : (Decimal.value (whole ++ fraction) : ℚ) = v * 10 ^ fraction.length

theorem positional_spec {s : Shortest} (hne : s.digits ≠ []) (hlt : ∀ d ∈ s.digits, d < 10) :
    Positional s.positional.1 s.positional.2 s.size := by
  have hzeros (k : Nat) : ∀ d ∈ List.replicate k 0, d < 10 := fun d hd => by
    rw [List.eq_of_mem_replicate hd]
    decide
  unfold Shortest.positional
  dsimp only
  split
  · rename_i h
    obtain ⟨k, hk⟩ := Int.eq_ofNat_of_zero_le h
    refine ⟨by simp [hne], ?_, by simp, ?_⟩
    · intro d hd
      rcases List.mem_append.1 hd with hd | hd
      · exact hlt d hd
      · exact hzeros _ d hd
    · rw [List.append_nil, Decimal.value_append_zeros, Shortest.size, hk, Int.toNat_natCast, zpow_natCast]
      simp
  · rename_i h
    obtain ⟨k, hk⟩ := Int.eq_ofNat_of_zero_le (show 0 ≤ -s.exponent by omega)
    have hexponent : s.exponent = -(k : Int) := by omega
    have hscale : s.size * 10 ^ k = Decimal.value s.digits := by
      rw [Shortest.size, hexponent, zpow_neg, zpow_natCast, mul_assoc, inv_mul_cancel₀ (by positivity),
        mul_one]
    rw [hk, Int.toNat_natCast]
    split
    · rename_i hshort
      refine ⟨?_, fun d hd => hlt d (List.mem_of_mem_take hd),
        fun d hd => hlt d (List.mem_of_mem_drop hd), ?_⟩
      · rw [← List.length_pos_iff, List.length_take]
        omega
      · rw [List.take_append_drop, List.length_drop, Nat.sub_sub_self (by omega), hscale]
    · rename_i hlong
      refine ⟨by simp, by simp, ?_, ?_⟩
      · intro d hd
        rcases List.mem_append.1 hd with hd | hd
        · exact hzeros _ d hd
        · exact hlt d hd
      · have hzero := Decimal.value_zeros_append 1 (List.replicate (k - s.digits.length) 0 ++ s.digits)
        rw [List.replicate_one] at hzero
        rw [hzero, Decimal.value_zeros_append, List.length_append, List.length_replicate,
          Nat.sub_add_cancel (by omega), hscale]

/-- The digits of the plain text. -/
def plainParts (x : Binary64) : List Nat × List Nat :=
  if x.magnitude = 0 then ([0], []) else x.shortest.positional

theorem plainParts_spec (x : Binary64) :
    ∃ v, Positional x.plainParts.1 x.plainParts.2 v ∧ Nearest v x.magnitude := by
  unfold plainParts
  split
  · rename_i h
    rw [h]
    exact ⟨0, ⟨by simp, by simp, by simp, by simp [Decimal.value]⟩, nearest_zero⟩
  · rename_i h
    exact ⟨x.shortest.size, positional_spec (shortest_digits_ne_nil h) x.shortest_digits_lt,
      nearest_shortest h⟩

/-- Digits with a point between them, when there are some after it. -/
def pointed (whole fraction : List Nat) : List Char :=
  whole.map Decimal.char ++ if fraction.isEmpty then [] else '.' :: fraction.map Decimal.char

theorem plainChars_eq (x : Binary64) :
    x.plainChars = (if x.negative then ['-'] else []) ++ pointed x.plainParts.1 x.plainParts.2 := by
  unfold plainChars plainParts
  dsimp only
  split
  · rfl
  · rw [pointed, List.append_assoc]

theorem point_not_mem {ds : List Nat} (h : ∀ d ∈ ds, d < 10) : '.' ∉ ds.map Decimal.char := by
  have all : ∀ d < 10, Decimal.char d ≠ '.' := by decide
  intro hmem
  obtain ⟨d, hd, he⟩ := List.mem_map.1 hmem
  exact all d (h d hd) he

theorem pointed_injective {w w' f f' : List Nat} (hw : ∀ d ∈ w, d < 10) (hw' : ∀ d ∈ w', d < 10)
    (hf : ∀ d ∈ f, d < 10) (hf' : ∀ d ∈ f', d < 10) (h : pointed w f = pointed w' f') :
    w = w' ∧ f = f' := by
  unfold pointed at h
  cases f with
  | nil =>
    cases f' with
    | nil =>
      simp only [List.isEmpty_nil, if_true, List.append_nil] at h
      exact ⟨Decimal.map_char_injective hw hw' h, rfl⟩
    | cons d f' =>
      simp only [List.isEmpty_nil, if_true, List.append_nil, List.isEmpty_cons, Bool.false_eq_true,
        if_false] at h
      exact absurd (h ▸ List.mem_append_right _ (.head _)) (point_not_mem hw)
  | cons d f =>
    cases f' with
    | nil =>
      simp only [List.isEmpty_nil, if_true, List.append_nil, List.isEmpty_cons, Bool.false_eq_true,
        if_false] at h
      exact absurd (h ▸ List.mem_append_right _ (.head _)) (point_not_mem hw')
    | cons d' f' =>
      simp only [List.isEmpty_cons, Bool.false_eq_true, if_false] at h
      obtain ⟨hwhole, hfraction⟩ := append_separator_inj (point_not_mem hw) (point_not_mem hw') h
      exact ⟨Decimal.map_char_injective hw hw' hwhole, Decimal.map_char_injective hf hf' hfraction⟩

theorem head_pointed {w f : List Nat} (hne : w ≠ []) (hw : ∀ d ∈ w, d < 10) :
    ∃ c cs, pointed w f = c :: cs ∧ c ≠ '-' := by
  obtain ⟨d, ds, rfl⟩ := List.exists_cons_of_ne_nil hne
  exact ⟨_, _, rfl, Decimal.char_ne_minus (hw d (.head _))⟩

/-- Numbers with the same plain text are equal. -/
theorem plainText_injective {x y : Binary64} (h : x.plainText = y.plainText) : x = y := by
  have hchars : x.plainChars = y.plainChars := String.ofList_injective h
  obtain ⟨v, hv, hx⟩ := x.plainParts_spec
  obtain ⟨v', hv', hy⟩ := y.plainParts_spec
  rw [plainChars_eq, plainChars_eq] at hchars
  obtain ⟨c, cs, hc, hcne⟩ := head_pointed (f := x.plainParts.2) hv.whole_ne_nil hv.whole_lt
  obtain ⟨c', cs', hc', hcne'⟩ := head_pointed (f := y.plainParts.2) hv'.whole_ne_nil hv'.whole_lt
  have hboth : x.negative = y.negative ∧
      pointed x.plainParts.1 x.plainParts.2 = pointed y.plainParts.1 y.plainParts.2 := by
    cases hxneg : x.negative <;> cases hyneg : y.negative <;> rw [hxneg, hyneg] at hchars
    · exact ⟨rfl, by simpa using hchars⟩
    · rw [hc] at hchars
      simp only [Bool.false_eq_true, if_false, if_true, List.nil_append, List.cons_append,
        List.cons.injEq] at hchars
      exact absurd hchars.1 hcne
    · rw [hc'] at hchars
      simp only [Bool.false_eq_true, if_false, if_true, List.nil_append, List.cons_append,
        List.cons.injEq] at hchars
      exact absurd hchars.1.symm hcne'
    · exact ⟨rfl, by simpa using hchars⟩
  obtain ⟨hneg, hpointed⟩ := hboth
  obtain ⟨hwhole, hfraction⟩ :=
    pointed_injective hv.whole_lt hv'.whole_lt hv.fraction_lt hv'.fraction_lt hpointed
  have hvalue := hv.value
  rw [hwhole, hfraction, hv'.value] at hvalue
  have hpos : (10 : ℚ) ^ y.plainParts.2.length ≠ 0 := by positivity
  have hsame : v' = v := mul_right_cancel₀ hpos hvalue
  have hmagnitude : x.magnitude = y.magnitude := hx.unique (hsame ▸ hy)
  obtain ⟨nx, mx, fx⟩ := x
  obtain ⟨ny, my, fy⟩ := y
  cases hneg
  cases hmagnitude
  rfl

end Binary64

end Proctor
