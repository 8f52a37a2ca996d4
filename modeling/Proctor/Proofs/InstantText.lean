import Mathlib.Tactic.IntervalCases
import Proctor.Proofs.Calendar
import Proctor.Proofs.Decimal
import Proctor.Time.Rfc3339

/-!
Reading back a written instant. Every number of the text is written in full and is followed by a mark
that is no digit, so the reader stops where the writer did.

Main statement: `read?_text`.
-/

namespace Proctor

namespace Instant

/-- What follows does not go on with the digits before. -/
def NoDigit (rest : List Char) : Prop :=
  ∀ c ∈ rest.head?, Decimal.digit? c = none

theorem noDigit_cons {c : Char} (h : Decimal.digit? c = none) (rest : List Char) :
    NoDigit (c :: rest) := by
  intro d hd
  cases hd
  exact h

theorem takeDigits_digits {limit : Nat} {ds : List Nat} {rest : List Char} (hds : ∀ d ∈ ds, d < 10)
    (hlimit : ds.length ≤ limit) (hrest : NoDigit rest) :
    takeDigits limit (ds.map Decimal.char ++ rest) = (ds, rest) := by
  induction ds generalizing limit with
  | nil =>
    match limit, rest, hrest with
    | 0, _, _ => rfl
    | _ + 1, [], _ => rfl
    | limit + 1, c :: rest, hrest => simp [takeDigits, hrest c rfl]
  | cons d ds ih =>
    obtain ⟨limit, rfl⟩ := Nat.exists_eq_add_of_le' (show 1 ≤ limit from Nat.le_trans (by simp) hlimit)
    have htail := ih (fun e he => hds e (.tail _ he)) (Nat.le_of_succ_le_succ hlimit)
    simp [takeDigits, Decimal.digit?_char (hds d (.head _)), htail]

/-- A run of digits is read up to what does not go on with it. -/
theorem digits?_digits {limit : Nat} {ds : List Nat} {rest : List Char} (hds : ∀ d ∈ ds, d < 10)
    (hne : ds ≠ []) (hlimit : ds.length ≤ limit) (hrest : NoDigit rest) :
    digits? limit (ds.map Decimal.char ++ rest) = some (ds, rest) := by
  obtain ⟨d, tail, rfl⟩ := List.exists_cons_of_ne_nil hne
  rw [digits?, takeDigits_digits hds hlimit hrest]

theorem trimStart_cons {c : Char} (h : Text.isBlank c = false) (cs : List Char) :
    Text.trimStart (c :: cs) = c :: cs := by
  rw [Text.trimStart, List.dropWhile_cons_of_neg (by simp [h])]

theorem char_not_blank {d : Nat} (h : d < 10) : Text.isBlank (Decimal.char d) = false := by
  have all : ∀ d < 10, Text.isBlank (Decimal.char d) = false := by decide
  exact all d h

theorem trimStart_digits {ds : List Nat} (hds : ∀ d ∈ ds, d < 10) (hne : ds ≠ [])
    (rest : List Char) :
    Text.trimStart (ds.map Decimal.char ++ rest) = ds.map Decimal.char ++ rest := by
  obtain ⟨d, tail, rfl⟩ := List.exists_cons_of_ne_nil hne
  exact trimStart_cons (char_not_blank (hds d (.head _))) _

/-- A padded number within its bounds is read back. -/
theorem number?_padded {width n : Nat} (low high : Nat) {rest : List Char} (hwidth : 0 < width)
    (hn : n < 10 ^ width) (hbounds : low ≤ n ∧ n ≤ high) (hrest : NoDigit rest) :
    number? width low high (Decimal.padded width n ++ rest) = some (n, rest) := by
  have hlength := Decimal.length_paddedDigits hwidth hn
  rw [Decimal.padded_eq, number?,
    trimStart_digits (fun _ => Decimal.paddedDigits_lt) (Decimal.paddedDigits_ne_nil width n),
    digits?_digits (fun _ => Decimal.paddedDigits_lt) (Decimal.paddedDigits_ne_nil width n)
      hlength.le hrest]
  simp [hbounds]

theorem mark?_cons {c : Char} (h : Text.isBlank c = false) (rest : List Char) :
    mark? c (c :: rest) = some rest := by
  simp [mark?, trimStart_cons h]

/-- A digit is no sign. -/
theorem year?_digits {d : Nat} (h : d < 10) (cs : List Char) :
    year? (Decimal.char d :: cs) =
      (digits? 4 (Decimal.char d :: cs)).map fun (ds, rest) => ((Decimal.value ds : Int), rest) := by
  rw [year?, trimStart_cons (char_not_blank h)]
  interval_cases d <;> rfl

theorem year?_yearChars (year : Int) {rest : List Char} (hrest : NoDigit rest) :
    year? (yearChars year ++ rest) = some (year, rest) := by
  have hread (limit : Nat) (hlimit : (Decimal.paddedDigits 4 year.natAbs).length ≤ limit) :
      digits? limit (Decimal.padded 4 year.natAbs ++ rest) =
        some (Decimal.paddedDigits 4 year.natAbs, rest) := by
    rw [Decimal.padded_eq]
    exact digits?_digits (fun _ => Decimal.paddedDigits_lt) (Decimal.paddedDigits_ne_nil 4 _) hlimit
      hrest
  have hlength : (Decimal.paddedDigits 4 year.natAbs).length ≤
      (Decimal.padded 4 year.natAbs ++ rest).length := by
    simp [Decimal.padded_eq]
  unfold yearChars
  split
  · rename_i hneg
    rw [List.cons_append, year?, trimStart_cons (by decide)]
    simp only [hread _ hlength, Option.map_some, Decimal.value_paddedDigits]
    congr 2
    omega
  · split
    · rw [List.cons_append, year?, trimStart_cons (by decide)]
      simp only [hread _ hlength, Option.map_some, Decimal.value_paddedDigits]
      congr 2
      omega
    · have hfour : (Decimal.paddedDigits 4 year.natAbs).length = 4 :=
        Decimal.length_paddedDigits (by decide) (by omega)
      have hdigits := hread 4 hfour.le
      obtain ⟨d, ds, hcons⟩ := List.exists_cons_of_ne_nil (Decimal.paddedDigits_ne_nil 4 year.natAbs)
      have hd : d < 10 := by
        have hmem : d ∈ Decimal.paddedDigits 4 year.natAbs := by
          rw [hcons]
          exact .head ds
        exact Decimal.paddedDigits_lt hmem
      have hvalue := Decimal.value_paddedDigits 4 year.natAbs
      rw [Decimal.padded_eq, hcons, List.map_cons, List.cons_append] at hdigits ⊢
      rw [year?_digits hd, hdigits, Option.map_some, ← hcons]
      simp only [hvalue]
      congr 2
      omega

/-- A valid date of a year in range is read back. -/
theorem date?_dateChars {d : Date} (hvalid : d.isValid = true) (hrange : isInRange d = true)
    {rest : List Char} (hrest : NoDigit rest) : date? (dateChars d ++ rest) = some (d, rest) := by
  have hbounds : (1 ≤ d.month ∧ d.month ≤ 12) ∧ 1 ≤ d.day ∧ d.day ≤ 31 := by
    have hdays : Date.daysInMonth d.year d.month ≤ 31 := by
      unfold Date.daysInMonth
      split
      · split <;> decide
      · split <;> decide
    simp only [Date.isValid, Bool.and_eq_true, decide_eq_true_eq] at hvalid
    omega
  obtain ⟨hmonth, hday⟩ := hbounds
  have hdash (cs : List Char) : NoDigit ('-' :: cs) := noDigit_cons (by decide) cs
  have hmark (cs : List Char) : mark? '-' ('-' :: cs) = some cs := mark?_cons (by decide) cs
  rw [dateChars, List.append_assoc, List.append_assoc, List.cons_append, List.cons_append, date?]
  simp only [year?_yearChars d.year (hdash _), hmark,
    number?_padded 1 12 (by decide) (show d.month < 10 ^ 2 by omega) hmonth (hdash _),
    number?_padded 1 31 (by decide) (show d.day < 10 ^ 2 by omega) hday hrest,
    Option.bind_eq_bind, Option.bind_some, hvalid, hrange, and_self, if_true]

theorem fraction?_fractionChars {nanos : Nat} (h : nanos < nanosPerSecond) {rest : List Char}
    (hrest : NoDigit rest) (hpoint : rest.head? ≠ some '.') :
    fraction? (fractionChars nanos ++ rest) = some (nanos, rest) := by
  have hlt : nanos < 10 ^ 9 := h
  have places (k n : Nat) (hk : 0 < k ∧ k ≤ 9) (hn : n < 10 ^ k) (hvalue : n * 10 ^ (9 - k) = nanos) :
      fraction? ('.' :: Decimal.padded k n ++ rest) = some (nanos, rest) := by
    have hlength := Decimal.length_paddedDigits hk.1 hn
    have hlimit : (Decimal.paddedDigits k n).length ≤ (Decimal.padded k n ++ rest).length := by
      simp [Decimal.padded_eq]
    have hread := digits?_digits (fun _ => Decimal.paddedDigits_lt) (Decimal.paddedDigits_ne_nil k n)
      hlimit hrest
    have hnine : (Decimal.paddedDigits k n ++ List.replicate 9 0).take 9 =
        Decimal.paddedDigits k n ++ List.replicate (9 - k) 0 := by
      rw [List.take_append, hlength, List.take_of_length_le (by omega), List.take_replicate]
      congr 2
      omega
    rw [← Decimal.padded_eq] at hread
    rw [List.cons_append, fraction?]
    simp only [hread, Option.bind_eq_bind, Option.bind_some, hnine, Decimal.value_append_zeros,
      Decimal.value_paddedDigits, hvalue]
  unfold fractionChars
  split
  · rename_i hzero
    rw [List.nil_append, fraction?, hzero]
    intro cs hcs
    exact hpoint (by rw [hcs]; rfl)
  · split
    · exact places 3 _ (by decide) (by omega) (by omega)
    · split
      · exact places 6 _ (by decide) (by omega) (by omega)
      · exact places 9 _ (by decide) hlt (by omega)

theorem timeOfDay?_chars (hour minute second : Nat) {nanos : Nat} (hhour : hour ≤ 23)
    (hminute : minute ≤ 59) (hsecond : second ≤ 60) (hnanos : nanos < nanosPerSecond)
    {rest : List Char} (hrest : NoDigit rest) (hpoint : rest.head? ≠ some '.') :
    timeOfDay? (Decimal.padded 2 hour ++ ':' :: (Decimal.padded 2 minute ++ ':' ::
        (Decimal.padded 2 second ++ (fractionChars nanos ++ rest)))) =
      some (hour * 3600 + minute * 60 + second - second / 60, nanos + second / 60 * nanosPerSecond,
        rest) := by
  have hcolon (cs : List Char) : NoDigit (':' :: cs) := noDigit_cons (by decide) cs
  have hmark (cs : List Char) : mark? ':' (':' :: cs) = some cs := mark?_cons (by decide) cs
  have hfraction : NoDigit (fractionChars nanos ++ rest) := by
    unfold fractionChars
    split
    · exact hrest
    · split
      · exact noDigit_cons (by decide) _
      · split <;> exact noDigit_cons (by decide) _
  rw [timeOfDay?]
  simp only [hmark, number?_padded 0 23 (by decide) (show hour < 10 ^ 2 by omega) ⟨by omega, hhour⟩ (hcolon _),
    number?_padded 0 59 (by decide) (show minute < 10 ^ 2 by omega) ⟨by omega, hminute⟩ (hcolon _),
    number?_padded 0 60 (by decide) (show second < 10 ^ 2 by omega) ⟨by omega, hsecond⟩ hfraction,
    fraction?_fractionChars hnanos hrest hpoint, Option.bind_eq_bind, Option.bind_some]

/-- An instant is read back from its text when the text is of a year that readers take. -/
theorem read?_text {t : Instant} (h : isInRange (Date.ofDays (t.seconds / 86400)) = true) :
    read? t.text = some t := by
  have hend : NoDigit ['Z'] := noDigit_cons (by decide) []
  have hmark (cs : List Char) : NoDigit ('T' :: cs) := noDigit_cons (by decide) cs
  obtain ⟨time, htime⟩ : ∃ n, n = (t.seconds % 86400).toNat := ⟨_, rfl⟩
  obtain ⟨leap, hleap⟩ : ∃ n, n = t.nanos / nanosPerSecond := ⟨_, rfl⟩
  -- second 60 is written exactly for a leap second
  have hsecond : (time % 60 + leap) / 60 = leap ∧ time % 60 + leap ≤ 60 := by
    have hnanos := t.nanos_lt
    have hlast := t.leap_only_at_end
    unfold nanosPerSecond at *
    omega
  have hdate (rest : List Char) := date?_dateChars (Date.isValid_ofDays (t.seconds / 86400)) h
    (hmark rest)
  have hclock := timeOfDay?_chars (time / 3600) (time / 60 % 60) (time % 60 + leap) (by omega)
    (by omega) hsecond.2 (Nat.mod_lt t.nanos (by decide)) hend (by decide)
  have hseconds : (t.seconds / 86400 * 86400 +
      ((time / 3600 * 3600 + time / 60 % 60 * 60 + (time % 60 + leap) - leap : Nat) : Int) - 0) =
      t.seconds := by
    omega
  have hnanos : t.nanos % nanosPerSecond + leap * nanosPerSecond = t.nanos := by
    rw [hleap, Nat.mod_add_div']
  have hmake : make? t.seconds t.nanos = some t := dif_pos ⟨t.nanos_lt, t.leap_only_at_end⟩
  have hblank : Text.trimStart ['Z'] = ['Z'] := trimStart_cons (by decide) []
  have hempty : (Text.trimStart []).isEmpty = true := rfl
  rw [hsecond.1, hnanos] at hclock
  rw [read?, text, String.toList_ofList, chars]
  simp only [← htime, ← hleap, List.append_assoc, List.cons_append]
  rw [readChars?]
  simp only [hdate, hclock, hblank, offset?, Option.bind_eq_bind, Option.bind_some, Date.toDays_ofDays,
    hseconds, hempty, h, and_self, if_true, hmake]

end Instant

end Proctor
