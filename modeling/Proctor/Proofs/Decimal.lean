import Mathlib.Tactic.Ring
import Proctor.Decimal
import Proctor.Proofs.Lists

/-!
A number is the value of its digits, so numerals of different numbers differ.
-/

namespace Proctor.Decimal

/-- Digits put behind others shift those by one power of ten each. -/
theorem value_append (ds es : List Nat) :
    value (ds ++ es) = value ds * 10 ^ es.length + value es := by
  have step (n : Nat) (es : List Nat) :
      es.foldl (fun n d => 10 * n + d) n = n * 10 ^ es.length + value es := by
    induction es generalizing n with
    | nil => simp [value]
    | cons e es ih =>
      have hvalue : value (e :: es) = e * 10 ^ es.length + value es := by
        rw [value, List.foldl_cons, ih, Nat.mul_zero, Nat.zero_add]
      rw [List.foldl_cons, ih, hvalue, List.length_cons, pow_succ]
      ring
  rw [value, List.foldl_append, step, ← value]

theorem value_digitsOnto (n : Nat) (after : List Nat) :
    value (digitsOnto n after) = n * 10 ^ after.length + value after := by
  induction n, after using digitsOnto.induct with
  | case1 n after h =>
    rw [digitsOnto, if_pos h, ← List.singleton_append, value_append]
    simp [value]
  | case2 n after h ih =>
    rw [digitsOnto, if_neg h, ih, ← List.singleton_append, value_append, List.length_append,
      List.length_singleton, pow_add]
    have hn := Nat.div_add_mod n 10
    calc n / 10 * (10 ^ 1 * 10 ^ after.length) + (value [n % 10] * 10 ^ after.length + value after)
        = (10 * (n / 10) + value [n % 10]) * 10 ^ after.length + value after := by ring
      _ = n * 10 ^ after.length + value after := by
        rw [show value [n % 10] = n % 10 by simp [value], hn]

/-- The digits of a number are read as that number. -/
theorem value_digits (n : Nat) : value (digits n) = n := by
  rw [digits, value_digitsOnto]
  simp [value]

theorem digitsOnto_lt {n : Nat} {after : List Nat} (h : ∀ d ∈ after, d < 10) :
    ∀ d ∈ digitsOnto n after, d < 10 := by
  induction n, after using digitsOnto.induct with
  | case1 n after hn =>
    rw [digitsOnto, if_pos hn]
    simpa using ⟨hn, h⟩
  | case2 n after hn ih =>
    rw [digitsOnto, if_neg hn]
    apply ih
    simpa using ⟨Nat.mod_lt n (by omega), h⟩

theorem digits_lt {n d : Nat} (h : d ∈ digits n) : d < 10 :=
  digitsOnto_lt (by simp) d h

theorem char_injective {d e : Nat} (hd : d < 10) (he : e < 10) (h : char d = char e) : d = e := by
  have all : ∀ d < 10, ∀ e < 10, char d = char e → d = e := by decide
  exact all d hd e he h

theorem char_ne_minus {d : Nat} (hd : d < 10) : char d ≠ '-' := by
  have all : ∀ d < 10, char d ≠ '-' := by decide
  exact all d hd

theorem map_char_injective {ds es : List Nat} (hd : ∀ d ∈ ds, d < 10) (he : ∀ e ∈ es, e < 10)
    (h : ds.map char = es.map char) : ds = es := by
  induction ds generalizing es with
  | nil =>
    cases es with
    | nil => rfl
    | cons e es => cases h
  | cons d ds ih =>
    cases es with
    | nil => cases h
    | cons e es =>
      rw [List.map_cons, List.map_cons, List.cons.injEq] at h
      rw [char_injective (hd d (.head _)) (he e (.head _)) h.1,
        ih (fun d hm => hd d (.tail _ hm)) (fun e hm => he e (.tail _ hm)) h.2]

theorem chars_injective {m n : Nat} (h : chars m = chars n) : m = n := by
  have hdigits := map_char_injective (fun _ => digits_lt) (fun _ => digits_lt) h
  rw [← value_digits m, hdigits, value_digits]

/-- A numeral consists of digits. -/
theorem not_mem_chars {c : Char} (h : c.isDigit = false) (n : Nat) : c ∉ chars n := by
  have all : ∀ d < 10, (char d).isDigit = true := by decide
  intro hc
  obtain ⟨d, hd, rfl⟩ := List.mem_map.1 hc
  rw [all d (digits_lt hd)] at h
  cases h

theorem minus_not_mem_chars (n : Nat) : '-' ∉ chars n :=
  not_mem_chars rfl n

theorem not_mem_text {c : Char} (h : c.isDigit = false) (n : Nat) : c ∉ (text n).toList := by
  rw [text, String.toList_ofList]
  exact not_mem_chars h n

theorem chars_ne_nil (n : Nat) : chars n ≠ [] := by
  have onto (n : Nat) (after : List Nat) : digitsOnto n after ≠ [] := by
    induction n, after using digitsOnto.induct with
    | case1 n after h => rw [digitsOnto, if_pos h]; simp
    | case2 n after h ih => rw [digitsOnto, if_neg h]; exact ih
  simp [chars, digits, onto]

/-- A numeral is read back when nothing or a minus sign follows it. -/
theorem eq_of_chars_append {m n : Nat} {s t : List Char} (hs : ∀ c ∈ s.head?, c = '-')
    (ht : ∀ c ∈ t.head?, c = '-') (h : chars m ++ s = chars n ++ t) : m = n := by
  have read (n : Nat) {s : List Char} (hs : ∀ c ∈ s.head?, c = '-') :
      (chars n ++ s).takeWhile (· ≠ '-') = chars n := by
    refine (takeWhile_dropWhile_eq_iff.2 ⟨rfl, ?_, by simpa using hs⟩).1
    intro c hc
    have hne : c ≠ '-' := fun he => minus_not_mem_chars n (he ▸ hc)
    simpa using hne
  apply chars_injective
  rw [← read m hs, h, read n ht]

theorem text_injective {m n : Nat} (h : text m = text n) : m = n :=
  chars_injective (String.ofList_injective h)

theorem toList_signedText (n : Int) :
    (signedText n).toList = (if n < 0 then ['-'] else []) ++ chars n.natAbs := by
  unfold signedText
  split <;> simp [text]

/-- What stands after a numeral and a minus sign is read back together with the number. -/
theorem signedText_append_inj {m n : Int} {s t : List Char}
    (h : (signedText m).toList ++ '-' :: s = (signedText n).toList ++ '-' :: t) :
    m = n ∧ s = t := by
  have natural (n : Nat) (u : List Char) : ∃ c cs, chars n ++ u = c :: cs ∧ c ≠ '-' := by
    cases hc : chars n with
    | nil => exact absurd hc (chars_ne_nil n)
    | cons c cs =>
      refine ⟨c, cs ++ u, rfl, ?_⟩
      rintro rfl
      exact minus_not_mem_chars n (hc ▸ .head _)
  have split {m n : Nat} (h : chars m ++ '-' :: s = chars n ++ '-' :: t) : m = n ∧ s = t := by
    obtain ⟨hn, hs⟩ := append_separator_inj (minus_not_mem_chars _) (minus_not_mem_chars _) h
    exact ⟨chars_injective hn, hs⟩
  rw [toList_signedText, toList_signedText] at h
  -- a numeral starts with a minus sign exactly when its number is negative
  by_cases hm : m < 0 <;> by_cases hn : n < 0
  · simp only [hm, hn, if_true, List.cons_append, List.nil_append, List.cons.injEq, true_and] at h
    obtain ⟨habs, hs⟩ := split h
    exact ⟨by omega, hs⟩
  · obtain ⟨c, cs, hc, hne⟩ := natural n.natAbs ('-' :: t)
    simp only [hm, hn, if_true, if_false, List.cons_append, List.nil_append, hc,
      List.cons.injEq] at h
    exact absurd h.1.symm hne
  · obtain ⟨c, cs, hc, hne⟩ := natural m.natAbs ('-' :: s)
    simp only [hm, hn, if_true, if_false, List.cons_append, List.nil_append, hc,
      List.cons.injEq] at h
    exact absurd h.1 hne
  · simp only [hm, hn, if_false, List.nil_append] at h
    obtain ⟨habs, hs⟩ := split h
    exact ⟨by omega, hs⟩

/-- Two numbers have two numerals. -/
theorem signedText_injective {m n : Int} (h : signedText m = signedText n) : m = n := by
  have happend : (signedText m).toList ++ '-' :: [] = (signedText n).toList ++ '-' :: [] := by
    rw [h]
  exact (signedText_append_inj happend).1

/-- Only the number zero starts with the digit zero. -/
theorem digitsOnto_head {n : Nat} (hn : n ≠ 0) (after : List Nat) :
    ∃ d ds, digitsOnto n after = d :: ds ∧ d ≠ 0 := by
  induction n, after using digitsOnto.induct with
  | case1 n after h => exact ⟨n, after, by rw [digitsOnto, if_pos h], hn⟩
  | case2 n after h ih =>
    rw [digitsOnto, if_neg h]
    exact ih (by omega)

theorem digits_head {n : Nat} (hn : n ≠ 0) : ∃ d ds, digits n = d :: ds ∧ d ≠ 0 :=
  digitsOnto_head hn []

theorem digit?_char {d : Nat} (h : d < 10) : digit? (char d) = some d := by
  have all : ∀ d < 10, digit? (char d) = some d := by decide
  exact all d h

theorem digit?_eq_some_iff {c : Char} {d : Nat} : digit? c = some d ↔ d < 10 ∧ c = char d := by
  constructor
  · intro h
    rw [digit?] at h
    split at h
    · rename_i hrange
      obtain ⟨hlow, hhigh⟩ := hrange
      have hlow : 48 ≤ c.toNat := hlow
      have hhigh : c.toNat ≤ 57 := hhigh
      rw [Option.some.injEq] at h
      refine ⟨by omega, ?_⟩
      rw [char, ← h, Nat.add_sub_cancel' hlow, Char.ofNat_toNat]
    · cases h
  · rintro ⟨hd, rfl⟩
    exact digit?_char hd

/-- Exactly the characters of digits are read as digits. -/
theorem digits?_eq_some_iff {cs : List Char} {ds : List Nat} :
    digits? cs = some ds ↔ cs = ds.map char ∧ ∀ d ∈ ds, d < 10 := by
  rw [digits?]
  induction cs generalizing ds with
  | nil => cases ds <;> simp
  | cons c cs ih =>
    simp only [List.mapM_cons, Option.bind_eq_bind, Option.bind_eq_some_iff, digit?_eq_some_iff, ih,
      Option.pure_def, Option.some.injEq]
    constructor
    · rintro ⟨d, ⟨hd, rfl⟩, ds, ⟨rfl, hds⟩, rfl⟩
      exact ⟨rfl, List.forall_mem_cons.2 ⟨hd, hds⟩⟩
    · rintro ⟨hcs, hlt⟩
      cases ds with
      | nil => cases hcs
      | cons d ds =>
        rw [List.map_cons, List.cons.injEq] at hcs
        obtain ⟨hd, hds⟩ := List.forall_mem_cons.1 hlt
        exact ⟨d, ⟨hd, hcs.1⟩, ds, ⟨hcs.2, hds⟩, rfl⟩

/-- Digits for a number, which may have zeros in front. -/
def IsRun (cs : List Char) (n : Nat) : Prop :=
  ∃ ds ≠ [], (∀ d ∈ ds, d < 10) ∧ value ds = n ∧ cs = ds.map char

/-- A text of digits for a number, with at most one plus sign in front. -/
def IsNumeral (s : String) (n : Nat) : Prop :=
  IsRun s.toList n ∨ ∃ cs, s.toList = '+' :: cs ∧ IsRun cs n

theorem not_isRun_plus {cs : List Char} {n : Nat} : ¬IsRun ('+' :: cs) n := by
  rintro ⟨_ | ⟨d, ds⟩, -, hlt, -, hcs⟩
  · cases hcs
  · have all : ∀ d < 10, '+' ≠ char d := by decide
    rw [List.map_cons, List.cons.injEq] at hcs
    exact all d (hlt d (.head _)) hcs.1

theorem isRun_iff {cs : List Char} {n : Nat} :
    IsRun cs n ↔ ∃ d ds, digits? cs = some (d :: ds) ∧ value (d :: ds) = n := by
  constructor
  · rintro ⟨_ | ⟨d, ds⟩, hne, hlt, hvalue, hcs⟩
    · exact absurd rfl hne
    · exact ⟨d, ds, digits?_eq_some_iff.2 ⟨hcs, hlt⟩, hvalue⟩
  · rintro ⟨d, ds, hdigits, hvalue⟩
    obtain ⟨hcs, hlt⟩ := digits?_eq_some_iff.1 hdigits
    exact ⟨d :: ds, List.cons_ne_nil d ds, hlt, hvalue, hcs⟩

/-- Exactly the numerals of numbers below the bound are read. -/
theorem read?_eq_some_iff {bound n : Nat} {s : String} :
    read? bound s = some n ↔ IsNumeral s n ∧ n < bound := by
  unfold read?
  extract_lets cs
  have hnumeral : IsNumeral s n ↔ IsRun cs n := by
    simp only [IsNumeral, cs]
    split
    · rename_i hs
      simp [hs, not_isRun_plus]
    · rename_i hs
      simpa using fun cs h => absurd h (hs cs)
  rw [hnumeral, isRun_iff]
  rcases digits? cs with _ | _ | ⟨d, ds⟩
  · simp
  · simp
  · have hsame : (∃ d' ds', some (d :: ds) = some (d' :: ds') ∧ value (d' :: ds') = n) ↔
        value (d :: ds) = n := by
      simp only [Option.some.injEq, List.cons.injEq]
      constructor
      · rintro ⟨_, _, ⟨rfl, rfl⟩, hvalue⟩
        exact hvalue
      · intro hvalue
        exact ⟨d, ds, ⟨rfl, rfl⟩, hvalue⟩
    rw [hsame, Option.ite_none_right_eq_some, Option.some.injEq, and_comm]
    exact and_congr_right fun he => by rw [he]

theorem length_digitsOnto_le {n w : Nat} (after : List Nat) (h : n < 10 ^ (w + 1)) :
    (digitsOnto n after).length ≤ w + 1 + after.length := by
  induction n, after using digitsOnto.induct generalizing w with
  | case1 n after hn =>
    rw [digitsOnto, if_pos hn, List.length_cons]
    omega
  | case2 n after hn ih =>
    rw [digitsOnto, if_neg hn]
    cases w with
    | zero => omega
    | succ w =>
      have htail := ih (w := w) (by rw [pow_succ] at h; omega)
      rw [List.length_cons] at htail
      omega

/-- A number below a power of ten has no more digits than the power has zeros. -/
theorem length_digits_le {n w : Nat} (hw : 0 < w) (h : n < 10 ^ w) : (digits n).length ≤ w := by
  obtain ⟨w, rfl⟩ := Nat.exists_eq_add_of_le' hw
  simpa [digits] using length_digitsOnto_le [] h

/-- The digits of a padded number. -/
def paddedDigits (width n : Nat) : List Nat :=
  List.replicate (width - (digits n).length) 0 ++ digits n

theorem padded_eq (width n : Nat) : padded width n = (paddedDigits width n).map char := by
  simp [padded, paddedDigits, chars, char]

theorem value_zeros_append (k : Nat) (ds : List Nat) : value (List.replicate k 0 ++ ds) = value ds := by
  have hzeros : value (List.replicate k 0) = 0 := by
    induction k with
    | zero => rfl
    | succ k ih => rw [List.replicate_succ', value_append, ih]; rfl
  rw [value_append, hzeros, Nat.zero_mul, Nat.zero_add]

theorem value_append_zeros (ds : List Nat) (k : Nat) :
    value (ds ++ List.replicate k 0) = value ds * 10 ^ k := by
  have hzeros := value_zeros_append k []
  rw [List.append_nil] at hzeros
  rw [value_append, hzeros, List.length_replicate]
  rfl

@[simp] theorem value_paddedDigits (width n : Nat) : value (paddedDigits width n) = n := by
  rw [paddedDigits, value_zeros_append, value_digits]

theorem paddedDigits_lt {width n d : Nat} (h : d ∈ paddedDigits width n) : d < 10 := by
  rcases List.mem_append.1 h with h | h
  · rw [List.eq_of_mem_replicate h]
    decide
  · exact digits_lt h

theorem length_paddedDigits {width n : Nat} (hwidth : 0 < width) (h : n < 10 ^ width) :
    (paddedDigits width n).length = width := by
  have hle := length_digits_le hwidth h
  rw [paddedDigits, List.length_append, List.length_replicate]
  omega

theorem paddedDigits_ne_nil (width n : Nat) : paddedDigits width n ≠ [] := by
  intro h
  have hdigits := (List.append_eq_nil_iff.1 h).2
  exact chars_ne_nil n (by rw [chars, hdigits]; rfl)

end Proctor.Decimal
