import Mathlib.Algebra.Order.Field.Power
import Mathlib.Algebra.Order.Field.Rat
import Mathlib.Tactic.FieldSimp
import Mathlib.Tactic.Linarith
import Mathlib.Tactic.Positivity
import Mathlib.Tactic.Ring
import Proctor.Json.Number

/-!
Rounding. Magnitudes number the floating-point numbers by size, and a magnitude is the nearest one to
a ratio when the ratio lies between the points halfway to its neighbours. Only one magnitude is, and
rounding finds it.

Main statements: `Nearest.unique`, `nearest_magnitudeOf`, `divNat_spec`.
-/

namespace Proctor

/-- The rounded quotient is at most half a divisor away, and it is even when it is half away. -/
theorem roundDiv_bounds (n : Nat) {d : Nat} (hd : 0 < d) :
    2 * (roundDiv n d * d) ≤ 2 * n + d ∧ 2 * n ≤ 2 * (roundDiv n d * d) + d ∧
      (2 * (roundDiv n d * d) = 2 * n + d ∨ 2 * n = 2 * (roundDiv n d * d) + d →
        roundDiv n d % 2 = 0) := by
  have hn := Nat.div_add_mod n d
  have hr := Nat.mod_lt n hd
  have hcomm : d * (n / d) = n / d * d := Nat.mul_comm _ _
  have hsucc : (n / d + 1) * d = n / d * d + d := Nat.succ_mul _ _
  unfold roundDiv
  dsimp only
  split
  · omega
  · split
    · rw [hsucc]
      omega
    · have hparity : n / d % 2 = 0 ∨ n / d % 2 = 1 := by omega
      rcases hparity with h | h
      · rw [h, Nat.add_zero]
        omega
      · rw [h, hsucc]
        omega

/-- A rounded quotient is at most a half away, and even when it is a half away. -/
theorem roundDiv_half (a : Nat) {b : Nat} (hb : 0 < b) :
    (roundDiv a b : ℚ) - 1 / 2 ≤ a / b ∧ (a : ℚ) / b ≤ roundDiv a b + 1 / 2 ∧
      ((roundDiv a b : ℚ) - 1 / 2 = a / b ∨ (a : ℚ) / b = roundDiv a b + 1 / 2 →
        roundDiv a b % 2 = 0) := by
  obtain ⟨hlow, hhigh, htie⟩ := roundDiv_bounds a hb
  generalize roundDiv a b = r at *
  have hb' : (0 : ℚ) < b := by positivity
  have hlow' : (2 * (r * b) : ℚ) ≤ 2 * a + b := by exact_mod_cast hlow
  have hhigh' : (2 * a : ℚ) ≤ 2 * (r * b) + b := by exact_mod_cast hhigh
  refine ⟨?_, ?_, ?_⟩
  · rw [le_div_iff₀ hb']
    linarith
  · rw [div_le_iff₀ hb']
    linarith
  · rw [eq_div_iff hb'.ne', div_eq_iff hb'.ne']
    intro htied
    apply htie
    refine htied.imp (fun h => ?_) fun h => ?_
    · have h : (2 * (r * b) : ℚ) = 2 * a + b := by linarith
      exact_mod_cast h
    · have h : (2 * a : ℚ) = 2 * (r * b) + b := by linarith
      exact_mod_cast h

namespace Binary64

/-! ### Magnitudes and sizes -/

/-- The significand of the numbers with a magnitude. -/
def significandAt (m : Nat) : Nat :=
  if m < binade then m else m % binade + binade

/-- The exponent of the numbers with a magnitude. -/
def exponentAt (m : Nat) : Int :=
  if m < binade then -1074 else (m / binade : Nat) - 1075

/-- The size of the numbers with a magnitude, which need not be finite. -/
def sizeAt (m : Nat) : ℚ :=
  significandAt m * 2 ^ exponentAt m

def size (x : Binary64) : ℚ :=
  sizeAt x.magnitude

/-- The distance of neighbours in a binade. -/
def spacing (j : Nat) : ℚ :=
  2 ^ ((j : Int) - 1074)

theorem spacing_pos (j : Nat) : 0 < spacing j := by
  unfold spacing
  positivity

theorem spacing_succ (j : Nat) : spacing (j + 1) = 2 * spacing j := by
  unfold spacing
  rw [show ((j + 1 : Nat) : Int) - 1074 = ((j : Int) - 1074) + 1 by omega,
    zpow_add_one₀ (by norm_num), mul_comm]

/-- The place of a magnitude: its binade, and its significand, which has all bits except in the first
binade. -/
theorem exists_place (m : Nat) :
    ∃ j r, m = j * binade + r ∧ r < 2 * binade ∧ (j = 0 ∨ binade ≤ r) := by
  unfold binade
  by_cases h : m < 0x10000000000000
  · exact ⟨0, m, by omega, by omega, .inl rfl⟩
  · exact ⟨m / 0x10000000000000 - 1, m % 0x10000000000000 + 0x10000000000000, by omega, by omega,
      .inr (by omega)⟩

theorem significandAt_place {j r : Nat} (hr : r < 2 * binade) (h : j = 0 ∨ binade ≤ r) :
    significandAt (j * binade + r) = r := by
  unfold significandAt
  unfold binade at *
  split <;> omega

theorem exponentAt_place {j r : Nat} (hr : r < 2 * binade) (h : j = 0 ∨ binade ≤ r) :
    exponentAt (j * binade + r) = (j : Int) - 1074 := by
  unfold exponentAt
  unfold binade at *
  split <;> omega

/-- The size at a place, which may be the end of the binade. -/
theorem sizeAt_place {j r : Nat} (hr : r ≤ 2 * binade) (h : j = 0 ∨ binade ≤ r) :
    sizeAt (j * binade + r) = r * spacing j := by
  rcases Nat.lt_or_eq_of_le hr with hlt | rfl
  · rw [sizeAt, significandAt_place hlt h, exponentAt_place hlt h, spacing]
  · -- the end of a binade is the start of the next one
    have hnext : j * binade + 2 * binade = (j + 1) * binade + binade := by ring
    have hlt : binade < 2 * binade := by decide
    rw [hnext, sizeAt, significandAt_place hlt (.inr le_rfl), exponentAt_place hlt (.inr le_rfl),
      ← spacing, spacing_succ]
    push_cast
    ring

theorem sizeAt_succ_place {j r : Nat} (hr : r < 2 * binade) (h : j = 0 ∨ binade ≤ r) :
    sizeAt (j * binade + r + 1) = (r + 1) * spacing j := by
  rw [Nat.add_assoc, sizeAt_place (by omega) (h.imp_right (by omega))]
  push_cast
  ring

theorem sizeAt_zero : sizeAt 0 = 0 := by
  have h := sizeAt_place (j := 0) (r := 0) (by omega) (.inl rfl)
  simpa using h

theorem sizeAt_lt_succ (m : Nat) : sizeAt m < sizeAt (m + 1) := by
  obtain ⟨j, r, rfl, hr, h⟩ := exists_place m
  have hpos := spacing_pos j
  rw [sizeAt_place hr.le h, sizeAt_succ_place hr h]
  linarith

theorem sizeAt_strictMono : StrictMono sizeAt :=
  strictMono_nat_of_lt_succ sizeAt_lt_succ

/-! ### The nearest magnitude -/

/-- The point between a magnitude and the next one. -/
def halfway (m : Nat) : ℚ :=
  (sizeAt m + sizeAt (m + 1)) / 2

theorem sizeAt_lt_halfway (m : Nat) : sizeAt m < halfway m := by
  have h := sizeAt_lt_succ m
  unfold halfway
  linarith

theorem halfway_lt_sizeAt (m : Nat) : halfway m < sizeAt (m + 1) := by
  have h := sizeAt_lt_succ m
  unfold halfway
  linarith

theorem halfway_strictMono : StrictMono halfway :=
  strictMono_nat_of_lt_succ fun m => (halfway_lt_sizeAt m).trans (sizeAt_lt_halfway (m + 1))

theorem halfway_place {j r : Nat} (hr : r < 2 * binade) (h : j = 0 ∨ binade ≤ r) :
    halfway (j * binade + r) = (r + 1 / 2) * spacing j := by
  rw [halfway, sizeAt_place hr.le h, sizeAt_succ_place hr h]
  ring

theorem halfway_below_place {l j r : Nat} (hl : l + 1 = j * binade + r) (hr : r ≤ 2 * binade)
    (h : j = 0 ∨ binade < r) : halfway l = (r - 1 / 2) * spacing j := by
  have hpos : 1 ≤ r := by
    rcases h with rfl | h <;> omega
  obtain ⟨s, rfl⟩ := Nat.exists_eq_add_of_le' hpos
  have hplace : l = j * binade + s := by omega
  rw [hplace, halfway_place (by omega) (h.imp_right (by omega))]
  push_cast
  ring

/-- Below a power of two the neighbour is at half the distance. -/
theorem halfway_below_binade {l j : Nat} (hl : l + 1 = (j + 1) * binade + binade) :
    halfway l = (binade - 1 / 4) * spacing (j + 1) := by
  have hplace : l = j * binade + (2 * binade - 1) := by
    unfold binade at *
    omega
  have hcast : ((2 * binade - 1 : Nat) : ℚ) = 2 * binade - 1 := by
    rw [Nat.cast_sub (by decide)]
    push_cast
    rfl
  rw [hplace, halfway_place (by decide) (.inr (by decide)), hcast, spacing_succ]
  ring

/-- The magnitude is the nearest one to a size, and the even one of two. -/
structure Nearest (v : ℚ) (m : Nat) : Prop where
  low : ∀ l, m = l + 1 → halfway l ≤ v ∧ (halfway l = v → m % 2 = 0)
  high : v ≤ halfway m ∧ (v = halfway m → m % 2 = 0)

/-- Rounding keeps the order. -/
theorem Nearest.mono {v v' : ℚ} {m m' : Nat} (h : Nearest v m) (h' : Nearest v' m') (hv : v ≤ v') :
    m ≤ m' := by
  by_contra hlt
  obtain ⟨l, rfl⟩ := Nat.exists_eq_add_of_le' (show 1 ≤ m by omega)
  obtain ⟨hlow, hloweven⟩ := h.low l rfl
  obtain ⟨hhigh, hhigheven⟩ := h'.high
  have hle : halfway m' ≤ halfway l := halfway_strictMono.monotone (by omega)
  -- both must be the point between neighbours, of which only one is even
  have heq : m' = l := halfway_strictMono.injective (by linarith)
  subst heq
  have heven := hloweven (by linarith)
  have heven' := hhigheven (by linarith)
  omega

theorem Nearest.unique {v : ℚ} {m m' : Nat} (h : Nearest v m) (h' : Nearest v m') : m = m' :=
  le_antisymm (h.mono h' le_rfl) (h'.mono h le_rfl)

theorem nearest_sizeAt (m : Nat) : Nearest (sizeAt m) m where
  low := by
    rintro l rfl
    have h := halfway_lt_sizeAt l
    exact ⟨h.le, fun he => by linarith⟩
  high := by
    have h := sizeAt_lt_halfway m
    exact ⟨h.le, fun he => by linarith⟩

theorem Nearest.lt_of_lt {v : ℚ} {m m' : Nat} (h : Nearest v m) (hm : m < m') : v < sizeAt m' :=
  calc v ≤ halfway m := h.high.1
    _ < sizeAt (m + 1) := halfway_lt_sizeAt m
    _ ≤ sizeAt m' := sizeAt_strictMono.monotone hm

/-- A quotient near a place of the right size is rounded to that place. -/
theorem nearest_place {v : ℚ} {j r : Nat} (hr : r ≤ 2 * binade) (h : j = 0 ∨ binade ≤ r)
    (htop : v < 2 * binade * spacing j) (hbottom : j = 0 ∨ binade * spacing j ≤ v)
    (hlow : (r - 1 / 2) * spacing j ≤ v) (hhigh : v ≤ (r + 1 / 2) * spacing j)
    (htie : (r - 1 / 2) * spacing j = v ∨ v = (r + 1 / 2) * spacing j → r % 2 = 0) :
    Nearest v (j * binade + r) := by
  have hpos := spacing_pos j
  have heven : (j * binade + r) % 2 = r % 2 := by
    unfold binade
    omega
  have hsize := sizeAt_place hr h
  constructor
  · intro l hl
    by_cases hlast : j = 0 ∨ binade < r
    · rw [halfway_below_place hl.symm hr hlast, heven]
      exact ⟨hlow, fun he => htie (.inl he)⟩
    · -- the neighbour below is nearer, but the size is not below the binade
      have hr : r = binade := by omega
      have hbelow := halfway_lt_sizeAt l
      rw [← hl, hsize, hr] at hbelow
      have hle : binade * spacing j ≤ v := hbottom.resolve_left fun h => hlast (.inl h)
      exact ⟨by linarith, fun he => by linarith⟩
  · rcases Nat.lt_or_eq_of_le hr with hlt | rfl
    · rw [halfway_place hlt h, heven]
      exact ⟨hhigh, fun he => htie (.inr he)⟩
    · have habove := sizeAt_lt_halfway (j * binade + 2 * binade)
      rw [hsize] at habove
      push_cast at habove
      exact ⟨by linarith, fun he => by linarith⟩

/-! ### Rounding a ratio -/

theorem cast_binade : (binade : ℚ) = 2 ^ (52 : Int) := by
  norm_num [binade]

theorem cast_shiftLeft (n k : Nat) : ((n <<< k : Nat) : ℚ) = n * 2 ^ k := by
  rw [Nat.shiftLeft_eq]
  push_cast
  rfl

/-- The ratio that is rounded at an exponent. -/
theorem exists_scaledDiv (n : Nat) {d : Nat} (hd : 0 < d) (k : Int) :
    ∃ a b : Nat, 0 < b ∧ scaledDiv n d k = roundDiv a b ∧ (a : ℚ) / b * 2 ^ k = n / d := by
  have hd' : (d : ℚ) ≠ 0 := by positivity
  unfold scaledDiv
  split
  · rename_i hk
    obtain ⟨k, rfl⟩ := Int.eq_ofNat_of_zero_le hk
    refine ⟨n, d <<< k, ?_, rfl, ?_⟩
    · rw [Nat.shiftLeft_eq]
      positivity
    · rw [cast_shiftLeft, zpow_natCast]
      field_simp
  · rename_i hk
    obtain ⟨j, hj⟩ := Int.eq_ofNat_of_zero_le (show 0 ≤ -k by omega)
    have hk : k = -(j : Int) := by omega
    subst hk
    refine ⟨n <<< (- -(j : Int)).toNat, d, hd, rfl, ?_⟩
    rw [show (- -(j : Int)).toNat = j by omega, cast_shiftLeft, zpow_neg, zpow_natCast]
    field_simp

theorem atLeastPower_iff {n d : Nat} (hd : 0 < d) (k : Int) :
    atLeastPower n d k = true ↔ (2 : ℚ) ^ k ≤ n / d := by
  have hd' : (0 : ℚ) < d := by positivity
  rw [le_div_iff₀ hd']
  unfold atLeastPower
  split
  · rename_i hk
    obtain ⟨k, rfl⟩ := Int.eq_ofNat_of_zero_le hk
    rw [decide_eq_true_iff, zpow_natCast, Int.toNat_natCast, ← Nat.cast_le (α := ℚ),
      cast_shiftLeft, mul_comm]
  · rename_i hk
    obtain ⟨j, hj⟩ := Int.eq_ofNat_of_zero_le (show 0 ≤ -k by omega)
    have hk : k = -(j : Int) := by omega
    subst hk
    rw [decide_eq_true_iff, show (- -(j : Int)).toNat = j by omega, ← Nat.cast_le (α := ℚ), cast_shiftLeft,
      zpow_neg, zpow_natCast, inv_mul_le_iff₀ (by positivity), mul_comm]

/-- The bits of numerator and denominator tell a ratio up to a factor of two. -/
theorem ratio_bounds {n d : Nat} (hn : 0 < n) (hd : 0 < d) :
    (2 : ℚ) ^ ((Nat.log2 n : Int) - Nat.log2 d - 1) ≤ n / d ∧
      (n : ℚ) / d < 2 ^ ((Nat.log2 n : Int) - Nat.log2 d + 1) := by
  have hd' : (0 : ℚ) < d := by positivity
  have hnlow : (2 : ℚ) ^ (Nat.log2 n : Int) ≤ n := by
    exact_mod_cast Nat.log2_self_le (Nat.pos_iff_ne_zero.1 hn)
  have hnhigh : (n : ℚ) < 2 ^ ((Nat.log2 n : Int) + 1) := by
    exact_mod_cast Nat.lt_log2_self (n := n)
  have hdlow : (2 : ℚ) ^ (Nat.log2 d : Int) ≤ d := by
    exact_mod_cast Nat.log2_self_le (Nat.pos_iff_ne_zero.1 hd)
  have hdhigh : (d : ℚ) < 2 ^ ((Nat.log2 d : Int) + 1) := by
    exact_mod_cast Nat.lt_log2_self (n := d)
  have join (i j k : Int) (h : i + j = k) : (2 : ℚ) ^ i * 2 ^ j = 2 ^ k := by
    rw [← zpow_add₀ (by norm_num), h]
  constructor
  · rw [le_div_iff₀ hd']
    calc (2 : ℚ) ^ ((Nat.log2 n : Int) - Nat.log2 d - 1) * d
        ≤ 2 ^ ((Nat.log2 n : Int) - Nat.log2 d - 1) * 2 ^ ((Nat.log2 d : Int) + 1) := by gcongr
      _ = 2 ^ (Nat.log2 n : Int) := join _ _ _ (by omega)
      _ ≤ n := hnlow
  · rw [div_lt_iff₀ hd']
    calc (n : ℚ) < 2 ^ ((Nat.log2 n : Int) + 1) := hnhigh
      _ = 2 ^ ((Nat.log2 n : Int) - Nat.log2 d + 1) * 2 ^ (Nat.log2 d : Int) :=
        (join _ _ _ (by omega)).symm
      _ ≤ 2 ^ ((Nat.log2 n : Int) - Nat.log2 d + 1) * d := by gcongr

/-- The exponent of the last bit leaves 53 bits before it, or all there are in the first binade. -/
theorem lastExponent_spec {n d : Nat} (hn : 0 < n) (hd : 0 < d) :
    -1074 ≤ lastExponent n d ∧ (n : ℚ) / d < 2 ^ (lastExponent n d + 53) ∧
      (lastExponent n d = -1074 ∨ (2 : ℚ) ^ (lastExponent n d + 52) ≤ n / d) := by
  obtain ⟨guess, hguess⟩ : ∃ g : Int, g = (Nat.log2 n : Int) - Nat.log2 d := ⟨_, rfl⟩
  obtain ⟨hlow, hhigh⟩ := ratio_bounds hn hd
  rw [← hguess] at hlow hhigh
  obtain ⟨top, htop⟩ : ∃ t, t = if atLeastPower n d guess then guess else guess - 1 := ⟨_, rfl⟩
  have hpower : (2 : ℚ) ^ top ≤ n / d ∧ (n : ℚ) / d < 2 ^ (top + 1) := by
    by_cases h : atLeastPower n d guess = true
    · rw [htop, if_pos h]
      exact ⟨(atLeastPower_iff hd guess).1 h, hhigh⟩
    · rw [htop, if_neg h, Int.sub_add_cancel]
      exact ⟨hlow, not_le.1 fun hle => h ((atLeastPower_iff hd guess).2 hle)⟩
  have hk : lastExponent n d = max (-1074) (top - 52) := by
    rw [lastExponent, htop, hguess]
  rw [hk]
  refine ⟨by omega, ?_, ?_⟩
  · refine hpower.2.trans_le (zpow_le_zpow_right₀ (by norm_num) (by omega))
  · rcases le_total (top - 52) (-1074) with h | h
    · exact .inl (by omega)
    · rw [max_eq_right h, Int.sub_add_cancel]
      exact .inr hpower.1

/-- Rounding finds the nearest magnitude. -/
theorem nearest_magnitudeOf {n d : Nat} (hn : 0 < n) (hd : 0 < d) :
    Nearest ((n : ℚ) / d) (magnitudeOf n d) := by
  obtain ⟨hmin, htop, hbottom⟩ := lastExponent_spec hn hd
  obtain ⟨j, hj⟩ : ∃ j, j = (lastExponent n d + 1074).toNat := ⟨_, rfl⟩
  have hk : lastExponent n d = (j : Int) - 1074 := by omega
  obtain ⟨a, b, hb, hround, hratio⟩ := exists_scaledDiv n hd (lastExponent n d)
  obtain ⟨hlow, hhigh, htie⟩ := roundDiv_half a hb
  have hpos := spacing_pos j
  rw [hk] at htop hbottom hratio
  rw [← spacing] at hratio
  rw [magnitudeOf, hround, ← hj, ← hratio]
  generalize roundDiv a b = r at *
  have hscale (k : Int) : (2 : ℚ) ^ ((j : Int) - 1074 + k) = 2 ^ k * spacing j := by
    rw [zpow_add₀ (by norm_num), spacing, mul_comm]
  have htop' : (a : ℚ) / b < 2 * binade := by
    rw [← hratio, hscale, mul_lt_mul_iff_left₀ hpos] at htop
    rw [cast_binade]
    norm_num at htop ⊢
    exact htop
  have hbottom' : j = 0 ∨ (binade : ℚ) ≤ a / b := by
    refine hbottom.imp (fun h => by omega) fun h => ?_
    rwa [← hratio, hscale, mul_le_mul_iff_left₀ hpos, ← cast_binade] at h
  have hr2 : (r : ℚ) < 2 * binade + 1 := by linarith
  apply nearest_place
  · exact Nat.lt_succ_iff.1 (by exact_mod_cast hr2)
  · refine hbottom'.imp_right fun h => Nat.lt_succ_iff.1 ?_
    have hlt : (binade : ℚ) < r + 1 := by linarith
    exact_mod_cast hlt
  · gcongr
  · refine hbottom'.imp_right fun h => ?_
    gcongr
  · gcongr
  · gcongr
  · rwa [mul_left_inj' hpos.ne', mul_left_inj' hpos.ne']

theorem nearest_zero : Nearest 0 0 := by
  have h := nearest_sizeAt 0
  rwa [sizeAt_zero] at h

/-- Rounding gives the number of the nearest magnitude, when there is one that large. -/
theorem ofRatio?_eq {n d m : Nat} (negative : Bool) (hd : 0 < d) (h : Nearest ((n : ℚ) / d) m) :
    ofRatio? negative n d = ofMagnitude? negative m := by
  unfold ofRatio?
  split
  · rename_i hn
    rw [hn, Nat.cast_zero, zero_div] at h
    rw [nearest_zero.unique h]
  · rename_i hn
    rw [(nearest_magnitudeOf (Nat.pos_of_ne_zero hn) hd).unique h]

theorem exists_nearest (n : Nat) {d : Nat} (hd : 0 < d) : ∃ m, Nearest ((n : ℚ) / d) m := by
  by_cases hn : n = 0
  · refine ⟨0, ?_⟩
    rw [hn, Nat.cast_zero, zero_div]
    exact nearest_zero
  · exact ⟨_, nearest_magnitudeOf (Nat.pos_of_ne_zero hn) hd⟩

theorem ofMagnitude?_magnitude (x : Binary64) : ofMagnitude? x.negative x.magnitude = some x :=
  dif_pos x.finite

/-- The last magnitude that is finite stands for more than `2 ^ 1023`. -/
theorem lt_sizeAt_last : (2 : ℚ) ^ (1023 : Int) < sizeAt (limit - 1) := by
  have hpower : (2 : ℚ) ^ (1023 : Int) = binade * spacing 2045 := by
    rw [cast_binade, spacing, ← zpow_add₀ (by norm_num)]
    congr 1
  have hsize : sizeAt (2045 * binade + binade) = binade * spacing 2045 :=
    sizeAt_place (by decide) (.inr (by decide))
  rw [hpower, ← hsize]
  exact sizeAt_strictMono (by decide)

/-- What is small enough has a nearest finite number. -/
theorem ofRatio?_isSome {n d : Nat} (negative : Bool) (hd : 0 < d) (h : (n : ℚ) / d ≤ 2 ^ (1023 : Int)) :
    ∃ x, ofRatio? negative n d = some x := by
  obtain ⟨m, hm⟩ := exists_nearest n hd
  have hle : m ≤ limit - 1 := hm.mono (nearest_sizeAt _) (h.trans lt_sizeAt_last.le)
  have hfinite : m < limit := Nat.lt_of_le_of_lt hle (by decide)
  rw [ofRatio?_eq negative hd hm]
  exact ⟨⟨negative, m, hfinite⟩, dif_pos hfinite⟩

/-- A whole number of 64 bits is rounded to a finite number. -/
theorem exists_ofRatio?_whole (negative : Bool) {n : Nat} (h : n < UInt64.size) :
    ∃ x, ofRatio? negative n 1 = some x := by
  apply ofRatio?_isSome negative Nat.one_pos
  rw [Nat.cast_one, div_one]
  have hcast : (n : ℚ) ≤ UInt64.size := by exact_mod_cast h.le
  have hsize : (UInt64.size : ℚ) = 2 ^ (64 : Int) := by norm_num [UInt64.size]
  rw [hsize] at hcast
  exact hcast.trans (zpow_le_zpow_right₀ (by norm_num) (by norm_num))

/-! ### Products and quotients -/

theorem ratio_spec (x : Binary64) : 0 < x.ratio.2 ∧ (x.ratio.1 : ℚ) / x.ratio.2 = x.size := by
  have hsize : x.size = x.significand * 2 ^ x.exponent := rfl
  rw [hsize]
  unfold ratio
  split
  · rename_i hk
    obtain ⟨k, hk'⟩ := Int.eq_ofNat_of_zero_le hk
    rw [hk']
    refine ⟨Nat.one_pos, ?_⟩
    rw [cast_shiftLeft, zpow_natCast]
    simp
  · rename_i hk
    obtain ⟨k, hk'⟩ := Int.eq_ofNat_of_zero_le (show 0 ≤ -x.exponent by omega)
    have hk : x.exponent = -(k : Int) := by omega
    rw [hk]
    refine ⟨?_, ?_⟩
    · simp [Nat.shiftLeft_eq]
    · rw [show (- -(k : Int)).toNat = k by omega, cast_shiftLeft, zpow_neg, zpow_natCast]
      simp [div_eq_mul_inv]

theorem mul?_eq {x y : Binary64} {m : Nat} (h : Nearest (x.size * y.size) m) :
    x.mul? y = ofMagnitude? x.negative m := by
  obtain ⟨hx, hxsize⟩ := ratio_spec x
  obtain ⟨hy, hysize⟩ := ratio_spec y
  have hproduct : x.mul? y =
      ofRatio? x.negative (x.ratio.1 * y.ratio.1) (x.ratio.2 * y.ratio.2) := rfl
  rw [hproduct]
  apply ofRatio?_eq x.negative (Nat.mul_pos hx hy)
  rw [Nat.cast_mul, Nat.cast_mul, mul_div_mul_comm, hxsize, hysize]
  exact h

theorem div?_eq {x y : Binary64} {m : Nat} (hy : y.size ≠ 0) (h : Nearest (x.size / y.size) m) :
    x.div? y = ofMagnitude? x.negative m := by
  obtain ⟨hx, hxsize⟩ := ratio_spec x
  obtain ⟨hyden, hysize⟩ := ratio_spec y
  have hynum : 0 < y.ratio.1 := by
    refine Nat.pos_of_ne_zero fun hzero => hy ?_
    rw [← hysize, hzero, Nat.cast_zero, zero_div]
  have hquotient : x.div? y =
      ofRatio? x.negative (x.ratio.1 * y.ratio.2) (x.ratio.2 * y.ratio.1) := rfl
  rw [hquotient]
  apply ofRatio?_eq x.negative (Nat.mul_pos hx hynum)
  rw [Nat.cast_mul, Nat.cast_mul, ← div_div_div_eq, hxsize, hysize]
  exact h

/-! ### Whole numbers -/

/-- A whole number of at most 53 bits, times a power of two, is a size. -/
theorem exists_sizeAt {n : Nat} (hn : n ≤ 2 * binade) (e : Nat) : ∃ m, sizeAt m = n * 2 ^ e := by
  by_cases hzero : n = 0
  · exact ⟨0, by rw [hzero, sizeAt_zero]; simp⟩
  · have hlow := Nat.log2_self_le hzero
    have hhigh := Nat.lt_log2_self (n := n)
    obtain ⟨i, hi⟩ : ∃ i, i = 52 - Nat.log2 n := ⟨_, rfl⟩
    have hbinade : binade = 2 ^ 52 := by decide
    have hbottom : binade ≤ n * 2 ^ i := by
      calc binade = 2 ^ 52 := hbinade
        _ ≤ 2 ^ (Nat.log2 n + i) := Nat.pow_le_pow_right (by decide) (by omega)
        _ = 2 ^ Nat.log2 n * 2 ^ i := pow_add 2 _ _
        _ ≤ n * 2 ^ i := Nat.mul_le_mul_right _ hlow
    have htop : n * 2 ^ i ≤ 2 * binade := by
      rcases Nat.eq_zero_or_pos i with hi0 | hipos
      · rw [hi0, pow_zero, Nat.mul_one]
        exact hn
      · calc n * 2 ^ i ≤ 2 ^ (Nat.log2 n + 1) * 2 ^ i := Nat.mul_le_mul_right _ hhigh.le
          _ = 2 ^ (Nat.log2 n + 1 + i) := (pow_add 2 _ _).symm
          _ = 2 ^ 53 := by
            congr 1
            omega
          _ = 2 * binade := by rw [hbinade, ← pow_succ']
    refine ⟨(1074 + e - i) * binade + n * 2 ^ i, ?_⟩
    rw [sizeAt_place htop (.inr hbottom), spacing, ← zpow_natCast 2 e]
    push_cast
    rw [mul_assoc, ← zpow_natCast 2 i, ← zpow_add₀ (by norm_num)]
    congr 2
    omega

theorem powerOfTen_zero : powerOfTen 0 = one := by
  decide +kernel

theorem size_one : one.size = 1 := by
  have hplace : one.magnitude = 1022 * binade + binade := by decide
  have hbinade : (binade : ℚ) = 2 ^ (52 : Int) := cast_binade
  rw [size, hplace, sizeAt_place (by decide) (.inr (by decide)), hbinade, spacing,
    ← zpow_add₀ (by norm_num)]
  norm_num

/-- Without an exponent nothing is scaled. -/
theorem scale?_zero (x : Binary64) : x.scale? 0 = some x := by
  have hnearest : Nearest (x.size * one.size) x.magnitude := by
    rw [size_one, mul_one]
    exact nearest_sizeAt x.magnitude
  rw [scale?, if_neg (by decide), if_pos (by decide), Int.toNat_zero, powerOfTen_zero,
    mul?_eq hnearest, ofMagnitude?_magnitude]

/-! ### Counts and quotients by one or more -/

theorem exists_nearest_of_nonneg {v : ℚ} (hv : 0 ≤ v) : ∃ m, Nearest v m := by
  obtain ⟨m, hm⟩ := exists_nearest v.num.toNat v.den_pos
  have hnum : ((v.num.toNat : Nat) : ℚ) = v.num := by
    exact_mod_cast congrArg (Int.cast (R := ℚ)) (Int.toNat_of_nonneg (Rat.num_nonneg.2 hv))
  rw [hnum, Rat.num_div_den] at hm
  exact ⟨m, hm⟩

theorem ext_parts {x y : Binary64} (hnegative : x.negative = y.negative)
    (hmagnitude : x.magnitude = y.magnitude) : x = y := by
  cases x
  cases y
  cases hnegative
  cases hmagnitude
  rfl

theorem size_nonneg (x : Binary64) : 0 ≤ x.size := by
  rw [← sizeAt_zero]
  exact sizeAt_strictMono.monotone (Nat.zero_le _)

/-- A quotient by one or more is finite. -/
theorem exists_div? (x : Binary64) {y : Binary64} (hy : 1 ≤ y.size) :
    ∃ z, x.div? y = some z ∧ z.negative = x.negative ∧ Nearest (x.size / y.size) z.magnitude := by
  have hx := x.size_nonneg
  have hypos : 0 < y.size := lt_of_lt_of_le one_pos hy
  obtain ⟨m, hm⟩ := exists_nearest_of_nonneg (div_nonneg hx hypos.le)
  have hle : m ≤ x.magnitude := hm.mono (nearest_sizeAt x.magnitude) (div_le_self hx hy)
  have hfinite : m < limit := Nat.lt_of_le_of_lt hle x.finite
  refine ⟨⟨x.negative, m, hfinite⟩, ?_, rfl, hm⟩
  rw [div?_eq hypos.ne' hm]
  exact dif_pos hfinite

/-- A count is rounded to the nearest number, or to the largest one. -/
theorem ofNat_spec (n : Nat) :
    (ofNat n).negative = false ∧
      ∃ m, Nearest (n : ℚ) m ∧ (ofNat n).magnitude = min m (limit - 1) := by
  obtain ⟨m, hm⟩ := exists_nearest n Nat.one_pos
  have hlast : 0 < limit := by decide
  rw [ofNat, ofRatio?_eq false Nat.one_pos hm]
  rw [Nat.cast_one, div_one] at hm
  unfold ofMagnitude?
  split
  · rename_i hfinite
    have hmin : min m (limit - 1) = m := min_eq_left (by omega)
    exact ⟨rfl, m, hm, hmin.symm⟩
  · rename_i hlarge
    have hmin : min m (limit - 1) = limit - 1 := min_eq_right (by omega)
    exact ⟨rfl, m, hm, hmin.symm⟩

theorem ofNat_mono {n n' : Nat} (h : n ≤ n') : (ofNat n).size ≤ (ofNat n').size := by
  obtain ⟨-, m, hm, hmagnitude⟩ := ofNat_spec n
  obtain ⟨-, m', hm', hmagnitude'⟩ := ofNat_spec n'
  have hle : m ≤ m' := hm.mono hm' (by exact_mod_cast h)
  apply sizeAt_strictMono.monotone
  rw [hmagnitude, hmagnitude']
  exact min_le_min_right _ hle

/-- A count that is a size is not rounded. -/
theorem size_ofNat {n m : Nat} (h : sizeAt m = n) (hlarge : (n : ℚ) ≤ 2 ^ (1023 : Int)) :
    (ofNat n).size = n := by
  obtain ⟨-, m', hm', hmagnitude⟩ := ofNat_spec n
  have hsame : m' = m := hm'.unique (h ▸ nearest_sizeAt m)
  have hlast : m < limit - 1 := by
    rw [← sizeAt_strictMono.lt_iff_lt, h]
    exact hlarge.trans_lt lt_sizeAt_last
  rw [size, hmagnitude, hsame, min_eq_left hlast.le, h]

/-- A count of at most `2 ^ 53` is not rounded. -/
theorem size_ofNat_of_le {n : Nat} (h : n ≤ 2 * binade) : (ofNat n).size = n := by
  have hsmall : (n : ℚ) ≤ 2 ^ (1023 : Int) := by
    calc (n : ℚ) ≤ (2 * binade : Nat) := by exact_mod_cast h
      _ = 2 ^ (53 : Int) := by norm_num [binade]
      _ ≤ 2 ^ (1023 : Int) := zpow_le_zpow_right₀ (by norm_num) (by norm_num)
  obtain ⟨m, hm⟩ := exists_sizeAt h 0
  rw [pow_zero, mul_one] at hm
  exact size_ofNat hm hsmall

theorem one_le_size_ofNat {n : Nat} (hn : 0 < n) : 1 ≤ (ofNat n).size := by
  have hone : ofNat 1 = one := by decide +kernel
  rw [← size_one, ← hone]
  exact ofNat_mono hn

/-- The quotient of two counts is that of the rounded counts, rounded once more. -/
theorem divNat_spec (n : Nat) {d : Nat} (hd : 0 < d) :
    (divNat n d).negative = false ∧
      Nearest ((ofNat n).size / (ofNat d).size) (divNat n d).magnitude := by
  obtain ⟨z, hz, hnegative, hnearest⟩ := (ofNat n).exists_div? (one_le_size_ofNat hd)
  rw [divNat, hz, Option.getD_some]
  exact ⟨hnegative.trans (ofNat_spec n).1, hnearest⟩

end Binary64

end Proctor
