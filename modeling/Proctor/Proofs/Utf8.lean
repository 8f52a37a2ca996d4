import Mathlib.Data.List.Basic
import Proctor.Bytes

/-!
Reading UTF-8 undoes writing it. The reader is followed character by character: over the bytes of one
character it leaves the start state once, and comes back to it with that character. So of a text that is cut
inside a character it reads everything before that character.
-/

namespace Proctor.Utf8

@[simp] theorem encode_empty : encode "" = [] := rfl

@[simp] theorem encode_ofList (cs : List Char) : encode (String.ofList cs) = cs.flatMap encodeChar := by
  simp [encode]

@[simp] theorem encode_append (s t : String) : encode (s ++ t) = encode s ++ encode t := by
  simp [encode]

theorem feedAll_cons {state state' : State} {b : UInt8} {pieces : List (Option Char)}
    (h : state.feed b = (pieces, state')) (read : List (Option Char)) (bs : Bytes) :
    feedAll read state (b :: bs) = feedAll (pieces.reverse ++ read) state' bs := by
  rw [feedAll, h]

theorem feedAll_append (read : List (Option Char)) (state : State) (bs cs : Bytes) :
    feedAll read state (bs ++ cs) =
      feedAll (feedAll read state bs).1 (feedAll read state bs).2 cs := by
  induction bs generalizing read state with
  | nil => rfl
  | cons b bs ih => exact ih _ _

theorem toNat_ofNat {n : Nat} (h : n < 256) : (UInt8.ofNat n).toNat = n := by
  simp only [UInt8.toNat_ofNat']
  omega

/-- A character is below the surrogates or above them, and no more than the last code point. -/
theorem toNat_bounds (c : Char) : c.toNat < 0xD800 ∨ 0xDFFF < c.toNat ∧ c.toNat < 0x110000 :=
  c.valid

theorem leading_ascii {n : Nat} (h : n < 0x80) :
    leading n = some (some (Char.ofNat n), .start) := by
  rw [leading, if_pos h]

theorem leading_two {n : Nat} (h : 2 ≤ n) (h' : n < 0x20) :
    leading (0xC0 + n) = some (none, .inside 0 n 0x80 0xBF) := by
  rw [leading, if_neg (by omega), if_neg (by omega), if_pos (by omega)]
  simp

theorem leading_three {n : Nat} (h : n < 0x10) :
    leading (0xE0 + n) = some (none, .inside 1 n (if n = 0 then 0xA0 else 0x80)
      (if n = 0xD then 0x9F else 0xBF)) := by
  rw [leading, if_neg (by omega), if_neg (by omega), if_neg (by omega)]
  by_cases h0 : n = 0
  · subst h0
    rfl
  rw [if_neg (by omega), if_neg h0]
  by_cases hD : n = 0xD
  · subst hD
    rfl
  rw [if_neg (by omega), if_pos (by omega), if_neg hD]
  simp

theorem leading_four {n : Nat} (h : n < 5) :
    leading (0xF0 + n) = some (none, .inside 2 n (if n = 0 then 0x90 else 0x80)
      (if n = 4 then 0x8F else 0xBF)) := by
  match n, h with
  | 0, _ | 1, _ | 2, _ | 3, _ | 4, _ => rfl

theorem feed_first {n : Nat} {state : State} (hn : n < 256)
    (h : leading n = some (none, state)) : State.start.feed (UInt8.ofNat n) = ([], state) := by
  simp only [State.feed, toNat_ofNat hn, begin, h]

theorem feed_last {code low high n : Nat} (hn : n < 256) (hlow : low ≤ n) (hhigh : n ≤ high) :
    (State.inside 0 code low high).feed (UInt8.ofNat n) =
      ([some (Char.ofNat (code * 64 + (n - 0x80)))], .start) := by
  simp only [State.feed, toNat_ofNat hn]
  rw [if_pos ⟨hlow, hhigh⟩]

theorem feed_next {owed code low high n : Nat} (hn : n < 256) (hlow : low ≤ n) (hhigh : n ≤ high) :
    (State.inside (owed + 1) code low high).feed (UInt8.ofNat n) =
      ([], .inside owed (code * 64 + (n - 0x80)) 0x80 0xBF) := by
  simp only [State.feed, toNat_ofNat hn]
  rw [if_pos ⟨hlow, hhigh⟩]

/-- Over the bytes of a character the reader gives that character and is between characters again. -/
theorem feedAll_encodeChar (read : List (Option Char)) (c : Char) :
    feedAll read .start (encodeChar c) = (some c :: read, .start) := by
  have hc := toNat_bounds c
  have self : Char.ofNat c.toNat = c := Char.ofNat_toNat c
  unfold encodeChar
  simp only
  split
  · rename_i h1
    have hb : begin c.toNat = ([some c], .start) := by rw [begin, leading_ascii h1, self]
    simp [feedAll, State.feed, toNat_ofNat (show c.toNat < 256 by omega), hb]
  split
  · rename_i h1 h2
    have first := feed_first (by omega) (leading_two (n := c.toNat / 64) (by omega) (by omega))
    rw [feedAll_cons first, feedAll_cons (feed_last (by omega) (by omega) (by omega))]
    have hv : c.toNat / 64 * 64 + (0x80 + c.toNat % 64 - 0x80) = c.toNat := by omega
    rw [hv, self]
    rfl
  split
  · rename_i h1 h2 h3
    have first := feed_first (by omega) (leading_three (n := c.toNat / 4096) (by omega))
    rw [feedAll_cons first,
      feedAll_cons (feed_next (by omega) (by split <;> omega) (by split <;> omega)),
      feedAll_cons (feed_last (by omega) (by omega) (by omega))]
    have hv : (c.toNat / 4096 * 64 + (0x80 + c.toNat / 64 % 64 - 0x80)) * 64 +
        (0x80 + c.toNat % 64 - 0x80) = c.toNat := by omega
    rw [hv, self]
    rfl
  · rename_i h1 h2 h3
    have first := feed_first (by omega) (leading_four (n := c.toNat / 262144) (by omega))
    rw [feedAll_cons first,
      feedAll_cons (feed_next (by omega) (by split <;> omega) (by split <;> omega)),
      feedAll_cons (feed_next (by omega) (by omega) (by omega)),
      feedAll_cons (feed_last (by omega) (by omega) (by omega))]
    have hv : ((c.toNat / 262144 * 64 + (0x80 + c.toNat / 4096 % 64 - 0x80)) * 64 +
        (0x80 + c.toNat / 64 % 64 - 0x80)) * 64 + (0x80 + c.toNat % 64 - 0x80) = c.toNat := by
      omega
    rw [hv, self]
    rfl

theorem feedAll_flatMap_encodeChar (read : List (Option Char)) (cs : List Char) :
    feedAll read .start (cs.flatMap encodeChar) = ((cs.map some).reverse ++ read, .start) := by
  induction cs generalizing read with
  | nil => rfl
  | cons c cs ih =>
    rw [List.flatMap_cons, feedAll_append, feedAll_encodeChar, ih]
    simp

theorem scan_flatMap_encodeChar (cs : List Char) : scan (cs.flatMap encodeChar) = cs.map some := by
  rw [scan, feedAll_flatMap_encodeChar]
  simp

@[simp] theorem scan_encode (s : String) : scan (encode s) = s.toList.map some :=
  scan_flatMap_encodeChar s.toList

theorem sequence_map_some (cs : List Char) : sequence (cs.map some) = some cs := by
  rw [sequence, if_pos (by simp)]
  simp

@[simp] theorem decode?_encode (s : String) : decode? (encode s) = some s := by
  rw [decode?, scan_encode, sequence_map_some]
  simp

theorem encode_injective {s t : String} (h : encode s = encode t) : s = t := by
  have hd := congrArg decode? h
  rw [decode?_encode, decode?_encode] at hd
  exact Option.some.inj hd

@[simp] theorem encode_inj {s t : String} : encode s = encode t ↔ s = t :=
  ⟨encode_injective, congrArg encode⟩

/-! ### Cut texts -/

theorem leading_ne_start (b : Nat) : leading b ≠ some (none, .start) := by
  unfold leading
  split_ifs <;> simp

/-- After a byte the reader has given something or is inside a character. -/
theorem ne_nil_of_feed {state : State} {b : UInt8} {pieces : List (Option Char)}
    (h : state.feed b = (pieces, .start)) : pieces ≠ [] := by
  rintro rfl
  cases state with
  | start =>
    simp only [State.feed, begin] at h
    split at h
    · cases h
    · rename_i state hleading
      cases h
      exact leading_ne_start _ hleading
    · cases h
  | inside owed code low high =>
    simp only [State.feed] at h
    split at h
    · split at h <;> cases h
    · cases h

/-- What has been given stays. -/
theorem exists_fst_feedAll (read : List (Option Char)) (state : State) (bs : Bytes) :
    ∃ more, (feedAll read state bs).1 = more ++ read := by
  induction bs generalizing read state with
  | nil => exact ⟨[], rfl⟩
  | cons b bs ih =>
    obtain ⟨pieces, state', hfeed⟩ : ∃ pieces state', state.feed b = (pieces, state') := ⟨_, _, rfl⟩
    obtain ⟨more, hmore⟩ := ih (pieces.reverse ++ read) state'
    exact ⟨more ++ pieces.reverse, by rw [feedAll_cons hfeed, hmore, List.append_assoc]⟩

/-- A part of a character gives nothing yet. -/
theorem fst_feedAll_part {c : Char} {part rest : Bytes} (h : encodeChar c = part ++ rest)
    (hrest : rest ≠ []) (read : List (Option Char)) : (feedAll read .start part).1 = read := by
  have hall := feedAll_encodeChar read c
  rcases List.eq_nil_or_concat rest with rfl | ⟨front, b, rfl⟩
  · exact absurd rfl hrest
  · rw [h, List.concat_eq_append, feedAll_append, feedAll_append] at hall
    obtain ⟨given, hgiven⟩ := exists_fst_feedAll read .start part
    rw [hgiven] at hall
    obtain ⟨more, hmore⟩ := exists_fst_feedAll (given ++ read) (feedAll read .start part).2 front
    generalize (feedAll (given ++ read) (feedAll read .start part).2 front).2 = state at hall
    obtain ⟨pieces, state', hfeed⟩ : ∃ pieces state', state.feed b = (pieces, state') := ⟨_, _, rfl⟩
    rw [hmore, feedAll_cons hfeed, feedAll] at hall
    obtain ⟨hpieces, rfl⟩ := Prod.mk.inj hall
    -- the last byte of the character gives it, so no byte before has given anything
    have hlast := List.length_pos_iff.2 (ne_nil_of_feed hfeed)
    have hlength := congrArg List.length hpieces
    simp only [List.length_append, List.length_reverse, List.length_cons] at hlength
    have hnone : given = [] := List.length_eq_zero_iff.1 (by omega)
    rw [hgiven, hnone, List.nil_append]

/-- A text cut inside a character is read up to that character, with a gap at most for the rest. -/
theorem scan_part (cs : List Char) {c : Char} {part rest : Bytes} (h : encodeChar c = part ++ rest)
    (hrest : rest ≠ []) :
    scan (cs.flatMap encodeChar ++ part) = cs.map some ∨
      scan (cs.flatMap encodeChar ++ part) = cs.map some ++ [none] := by
  have hfeed := fst_feedAll_part h hrest (cs.map some).reverse
  rw [scan, feedAll_append, feedAll_flatMap_encodeChar, List.append_nil]
  simp only
  split
  · rename_i read heq
    simp only [heq] at hfeed
    left
    rw [hfeed, List.reverse_reverse]
  · rename_i read _ _ _ _ heq
    simp only [heq] at hfeed
    right
    rw [hfeed, List.reverse_cons, List.reverse_reverse]

theorem length_encodeChar (c : Char) : (encodeChar c).length ≤ 4 := by
  unfold encodeChar
  extract_lets n
  split_ifs <;> simp

/-- A cut leaves some characters and a part of the next one. -/
theorem exists_take (cs : List Char) (count : Nat) :
    ∃ (front : List Char) (c : Char) (part rest : Bytes),
      (cs.flatMap encodeChar).take count = front.flatMap encodeChar ++ part ∧
        encodeChar c = part ++ rest ∧ rest ≠ [] := by
  induction cs generalizing count with
  | nil => exact ⟨[], 'a', [], encodeChar 'a', by simp, rfl, by decide⟩
  | cons c cs ih =>
    by_cases hlong : (encodeChar c).length ≤ count
    · obtain ⟨front, c', part, rest, htake, hpart, hrest⟩ := ih (count - (encodeChar c).length)
      refine ⟨c :: front, c', part, rest, ?_, hpart, hrest⟩
      rw [List.flatMap_cons, List.take_append, List.take_of_length_le hlong, htake,
        List.flatMap_cons, List.append_assoc]
    · refine ⟨[], c, (encodeChar c).take count, (encodeChar c).drop count, ?_,
        (List.take_append_drop _ _).symm, ?_⟩
      · rw [List.flatMap_cons, List.take_append_of_le_length (by omega)]
        rfl
      · rw [ne_eq, List.drop_eq_nil_iff]
        exact hlong

end Proctor.Utf8
