import Proctor.Proofs.ShortestDigits

/-!
Reading back the document form of a number of at most one. Its digits are rounded as one whole number
and then divided by a rounded power of ten, so the number is read back exactly when that quotient is
rounded to it. This is so when the digits make at most `2 ^ 53` and the power of ten has at most 22 zeros,
since nothing is rounded before the division then.

Main statements: `binary64?_ofBinary64`, `reread?_eq_some_iff`, `reread?_of_short`.
-/

namespace Proctor

namespace Binary64

/-- The shortest digits as one whole number. -/
def digitsValue (x : Binary64) : Nat :=
  Decimal.value x.shortest.digits

/-- The number that the shortest digits are read as: rounded first and scaled then. -/
def reread? (x : Binary64) : Option Binary64 :=
  (ofRatio? x.negative x.digitsValue 1).bind (·.scale? x.shortest.exponent)

/-! ### The first digit -/

theorem shortest_digits_head {x : Binary64} (hx : x.magnitude ≠ 0) :
    ∃ d ds, x.shortest.digits = d :: ds ∧ d ≠ 0 := by
  obtain ⟨c, g, h⟩ := exists_found hx
  have hc : c ≠ 0 := by
    rintro rfl
    have hzero := h.nearest
    rw [Nat.cast_zero, zero_mul] at hzero
    exact hx (nearest_zero.unique hzero).symm
  obtain ⟨d, ds, hdigits, hd⟩ := Decimal.digits_head hc
  obtain ⟨k, hsplit, -⟩ := trim_spec ⟨Decimal.digits c, g⟩
  obtain ⟨e, es, hcons⟩ := List.exists_cons_of_ne_nil (shortest_digits_ne_nil hx)
  rw [← h.shortest, hcons] at hsplit
  dsimp only at hsplit
  rw [hdigits, List.cons_append, List.cons.injEq] at hsplit
  exact ⟨e, es, hcons, hsplit.1 ▸ hd⟩

/-- The power of ten that the first digit of a number counts. -/
def point (x : Binary64) : Int :=
  x.shortest.exponent + x.shortest.digits.length - 1

theorem shortest_size_bounds {x : Binary64} (hx : x.magnitude ≠ 0) :
    (10 : ℚ) ^ x.point ≤ x.shortest.size ∧ x.shortest.size < 10 ^ (x.point + 1) := by
  obtain ⟨d, ds, hdigits, hd⟩ := shortest_digits_head hx
  have hlt := Decimal.value_lt_pow x.shortest_digits_lt
  have hle : 10 ^ ds.length ≤ Decimal.value x.shortest.digits := by
    rw [hdigits, Decimal.value_cons]
    have := Nat.le_mul_of_pos_left (10 ^ ds.length) (Nat.pos_of_ne_zero hd)
    omega
  have hlength : x.shortest.digits.length = ds.length + 1 := by rw [hdigits, List.length_cons]
  have hlow : x.point = ds.length + x.shortest.exponent := by
    rw [point, hlength]
    push_cast
    ring
  have hhigh : x.point + 1 = x.shortest.digits.length + x.shortest.exponent := by
    rw [point]
    ring
  rw [Shortest.size]
  constructor
  · rw [hlow, zpow_add₀ (by norm_num), zpow_natCast]
    gcongr
    exact_mod_cast hle
  · rw [hhigh, zpow_add₀ (by norm_num), zpow_natCast]
    gcongr
    exact_mod_cast hlt

theorem point_neg {x : Binary64} (hx : x.magnitude ≠ 0) (hone : x.magnitude < one.magnitude) :
    x.point < 0 := by
  have hlt : x.shortest.size < 1 := by
    have h := (nearest_shortest hx).lt_of_lt hone
    rwa [show sizeAt one.magnitude = 1 from size_one] at h
  have hpower : (10 : ℚ) ^ x.point < 10 ^ (0 : Int) := by
    rw [zpow_zero]
    exact (shortest_size_bounds hx).1.trans_lt hlt
  exact (zpow_lt_zpow_iff_right₀ (by norm_num)).1 hpower

/-- No number is so small that its exponent is not computed with. -/
theorem lt_point {x : Binary64} (hx : x.magnitude ≠ 0) : -1076 < x.point := by
  obtain ⟨l, hl⟩ := Nat.exists_eq_add_of_le' (Nat.pos_of_ne_zero hx)
  have hfirst : halfway 0 = 2 ^ (-1075 : Int) := by
    have h := halfway_place (j := 0) (r := 0) (by decide) (.inl rfl)
    rw [Nat.zero_mul, Nat.zero_add] at h
    rw [h, spacing, show (-1075 : Int) = -1 + ((0 : Nat) - 1074) by decide, zpow_add₀ (by norm_num)]
    norm_num
  have hpower : (10 : ℚ) ^ (-1075 : Int) < 10 ^ (x.point + 1) := by
    calc (10 : ℚ) ^ (-1075 : Int) ≤ 2 ^ (-1075 : Int) := by
          rw [zpow_neg, zpow_neg]
          exact inv_anti₀ (by positivity) (zpow_le_zpow_left₀ (by decide) (by norm_num) (by norm_num))
      _ = halfway 0 := hfirst.symm
      _ ≤ halfway l := halfway_strictMono.monotone (Nat.zero_le l)
      _ ≤ x.shortest.size := ((nearest_shortest hx).low l hl).1
      _ < 10 ^ (x.point + 1) := (shortest_size_bounds hx).2
  have h := (zpow_lt_zpow_iff_right₀ (by norm_num)).1 hpower
  omega

/-! ### The two steps of a reader -/

/-- The document form keeps the digits and their power of ten, with or without an exponent. -/
theorem ofBinary64_spec {x : Binary64} (hx : x.magnitude ≠ 0) (hone : x.magnitude < one.magnitude) :
    (Numeral.ofBinary64 x).negative = x.negative ∧
      (Numeral.ofBinary64 x).significand = x.digitsValue ∧
      (Numeral.ofBinary64 x).exponent.getD 0 - (Numeral.ofBinary64 x).fraction.length =
        x.shortest.exponent ∧
      ((Numeral.ofBinary64 x).exponent.getD 0).natAbs ≤ Numeral.exponentLimit := by
  obtain ⟨d, ds, hdigits, hd⟩ := shortest_digits_head hx
  have hneg := point_neg hx hone
  have hlow := lt_point hx
  have hpoint : x.point = x.shortest.exponent + ds.length := by
    rw [point, hdigits, List.length_cons]
    push_cast
    ring
  have hlimit : (0 : Int).natAbs ≤ Numeral.exponentLimit := Nat.zero_le _
  unfold Numeral.ofBinary64 digitsValue
  dsimp only
  rw [hdigits]
  dsimp only
  rw [← hpoint]
  split
  · rename_i hrange
    refine ⟨rfl, ?_, ?_, hlimit⟩
    · rw [Numeral.significand_eq, Nat.zero_mul, Nat.zero_add, Decimal.value_zeros_append]
    · rw [Option.getD_none, List.length_append, List.length_replicate, List.length_cons]
      omega
  · refine ⟨rfl, ?_, ?_, ?_⟩
    · rw [Numeral.significand_eq, Decimal.value_cons]
    · rw [Option.getD_some]
      dsimp only
      omega
    · rw [Option.getD_some, show Numeral.exponentLimit = 2147483647 by decide]
      omega

theorem digitsValue_lt (x : Binary64) : x.digitsValue < UInt64.size := by
  by_cases hx : x.magnitude = 0
  · rw [digitsValue, shortest, if_pos hx]
    decide
  · exact value_shortest_lt hx

/-- Zero and one are seen to apart from the numbers between them. -/
theorem of_le_one {P : Binary64 → Prop} {x : Binary64} (hone : x.magnitude ≤ one.magnitude)
    (hends : ∀ negative, P ⟨negative, 0, zero.finite⟩ ∧ P ⟨negative, one.magnitude, one.finite⟩)
    (hbetween : x.magnitude ≠ 0 → x.magnitude < one.magnitude → P x) : P x := by
  by_cases hx : x.magnitude ≠ 0 ∧ x.magnitude < one.magnitude
  · exact hbetween hx.1 hx.2
  · obtain ⟨negative, magnitude, finite⟩ := x
    have hend : magnitude = 0 ∨ magnitude = one.magnitude := by
      dsimp only at hx hone
      omega
    rcases hend with rfl | rfl
    · exact (hends negative).1
    · exact (hends negative).2

/-- A number of at most one is read by its digits. -/
theorem binary64?_ofBinary64 {x : Binary64} (hone : x.magnitude ≤ one.magnitude) :
    (Numeral.ofBinary64 x).binary64? = x.reread? := by
  apply of_le_one (P := fun x => (Numeral.ofBinary64 x).binary64? = x.reread?) hone
  · decide +kernel
  · intro hx hlt
    obtain ⟨hnegative, hsignificand, hexponent, hlimit⟩ := ofBinary64_spec hx hlt
    rw [Numeral.binary64?_eq (hsignificand ▸ x.digitsValue_lt) hlimit, hnegative, hsignificand, hexponent,
      reread?]

theorem exponent_nonpos {x : Binary64} (hone : x.magnitude ≤ one.magnitude) :
    x.shortest.exponent ≤ 0 := by
  apply of_le_one (P := fun x => x.shortest.exponent ≤ 0) hone
  · decide +kernel
  · intro hx hlt
    have hneg := point_neg hx hlt
    have hlength := List.length_pos_iff.2 (shortest_digits_ne_nil hx)
    rw [point] at hneg
    omega

/-! ### The quotient -/

theorem one_le_size_powerOfTen (k : Nat) : 1 ≤ (powerOfTen k).size :=
  one_le_size_ofNat (Nat.pow_pos (by decide))

/-- Powers of ten are not rounded as long as the same power of five has at most 53 bits. -/
theorem size_powerOfTen {k : Nat} (hk : k ≤ 22) : (powerOfTen k).size = 10 ^ k := by
  have hfive : 5 ^ k ≤ 2 * binade := by
    calc 5 ^ k ≤ 5 ^ 22 := Nat.pow_le_pow_right (by decide) hk
      _ ≤ 2 * binade := by decide
  have hsplit : ((5 ^ k : Nat) : ℚ) * 2 ^ k = 10 ^ k := by
    rw [Nat.cast_pow, ← mul_pow]
    norm_num
  have hten : ((Nat.pow 10 k : Nat) : ℚ) = 10 ^ k := by simp
  have hlarge : ((Nat.pow 10 k : Nat) : ℚ) ≤ 2 ^ (1023 : Int) := by
    rw [hten]
    calc (10 : ℚ) ^ k ≤ 10 ^ 22 := pow_le_pow_right₀ (by norm_num) hk
      _ ≤ 2 ^ (100 : Int) := by norm_num
      _ ≤ 2 ^ (1023 : Int) := zpow_le_zpow_right₀ (by norm_num) (by norm_num)
  obtain ⟨m, hm⟩ := exists_sizeAt hfive k
  rw [powerOfTen, size_ofNat (hm.trans (hsplit.trans hten.symm)) hlarge, hten]

theorem exists_scaleDown? (fuel : Nat) (x : Binary64) (places : Nat) :
    ∃ y, scaleDown? fuel x places = some y ∧ y.negative = x.negative := by
  induction fuel generalizing x places with
  | zero => exact ⟨x, rfl, rfl⟩
  | succ fuel ih =>
    rw [scaleDown?]
    split
    · obtain ⟨y, hy, hnegative, -⟩ := x.exists_div? (one_le_size_powerOfTen places)
      exact ⟨y, hy, hnegative⟩
    · split
      · exact ⟨x, rfl, rfl⟩
      · obtain ⟨y, hy, hnegative, -⟩ := x.exists_div? (one_le_size_powerOfTen 308)
        obtain ⟨z, hz, hnegative'⟩ := ih y (places - 308)
        rw [hy]
        exact ⟨z, hz, hnegative'.trans hnegative⟩

/-- One division is enough for all powers of ten that are numbers. -/
theorem exists_scale? (x : Binary64) {e : Int} (hle : e ≤ 0) (hlow : -308 ≤ e) :
    ∃ y, x.scale? e = some y ∧ y.negative = x.negative ∧
      Nearest (x.size / (powerOfTen e.natAbs).size) y.magnitude := by
  rcases hle.lt_or_eq with hneg | rfl
  · rw [scale?, if_pos hneg, scaleDown?, if_pos (by omega)]
    exact x.exists_div? (one_le_size_powerOfTen _)
  · refine ⟨x, scale?_zero x, rfl, ?_⟩
    rw [Int.natAbs_zero, powerOfTen_zero, size_one, div_one]
    exact nearest_sizeAt x.magnitude

/-- The digits that fit in 64 bits are rounded as a count is. -/
theorem ofRatio?_whole (negative : Bool) {n : Nat} (h : n < UInt64.size) :
    ofRatio? negative n 1 = some ⟨negative, (ofNat n).magnitude, (ofNat n).finite⟩ := by
  obtain ⟨m, hm⟩ := exists_nearest n Nat.one_pos
  obtain ⟨x, hx⟩ := exists_ofRatio?_whole negative h
  have hboth (negative : Bool) : ofRatio? negative n 1 = ofMagnitude? negative m :=
    ofRatio?_eq negative Nat.one_pos hm
  have hfinite : m < limit := by
    by_contra hnot
    rw [hboth, ofMagnitude?, dif_neg hnot] at hx
    cases hx
  simp only [ofNat, hboth, ofMagnitude?, dif_pos hfinite, Option.getD_some]

/-- Some number is always read. -/
theorem exists_reread? {x : Binary64} (hone : x.magnitude ≤ one.magnitude) :
    ∃ y, x.reread? = some y := by
  have hexponent := exponent_nonpos hone
  rw [reread?, ofRatio?_whole x.negative x.digitsValue_lt, Option.bind_some]
  rcases hexponent.lt_or_eq with hneg | hzero
  · rw [scale?, if_pos hneg]
    obtain ⟨y, hy, -⟩ := exists_scaleDown? 4 ⟨x.negative, _, (ofNat x.digitsValue).finite⟩
      x.shortest.exponent.natAbs
    exact ⟨y, hy⟩
  · rw [hzero, scale?_zero]
    exact ⟨_, rfl⟩

/-- A number is read back exactly when the quotient of its rounded digits and a rounded power of ten is
rounded to it. -/
theorem reread?_eq_some_iff {x : Binary64} (hone : x.magnitude ≤ one.magnitude)
    (hlow : -308 ≤ x.shortest.exponent) :
    x.reread? = some x ↔
      Nearest ((ofNat x.digitsValue).size / (powerOfTen x.shortest.exponent.natAbs).size)
        x.magnitude := by
  obtain ⟨y, hy, hnegative, hnearest⟩ :=
    exists_scale? ⟨x.negative, _, (ofNat x.digitsValue).finite⟩ (exponent_nonpos hone) hlow
  rw [reread?, ofRatio?_whole x.negative x.digitsValue_lt, Option.bind_some, hy, Option.some.injEq]
  constructor
  · rintro rfl
    exact hnearest
  · intro h
    exact ext_parts hnegative (hnearest.unique h)

/-- Digits of at most 53 bits over a power of ten that is not rounded survive. -/
theorem reread?_of_short {x : Binary64} (hone : x.magnitude ≤ one.magnitude)
    (hdigits : x.digitsValue ≤ 2 * binade) (hplaces : -22 ≤ x.shortest.exponent) :
    x.reread? = some x := by
  have hexponent := exponent_nonpos hone
  obtain ⟨k, hk⟩ := Int.exists_eq_neg_ofNat hexponent
  rw [reread?_eq_some_iff hone (by omega), size_ofNat_of_le hdigits, hk, Int.natAbs_neg,
    Int.natAbs_natCast, size_powerOfTen (by omega)]
  by_cases hx : x.magnitude = 0
  · rw [hx, digitsValue, shortest, if_pos hx, Decimal.value, List.foldl_nil, Nat.cast_zero, zero_div]
    exact nearest_zero
  · have h := nearest_shortest hx
    rwa [Shortest.size, hk, zpow_neg, zpow_natCast, ← div_eq_mul_inv] at h

end Binary64

end Proctor
