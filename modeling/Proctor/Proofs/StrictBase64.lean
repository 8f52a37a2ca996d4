import Proctor.Proofs.Base64

/-!
Strict reading of base64. A text that can be read is canonical, by the rules of the format alone, and a
canonical text is what writing gives for some bytes; so no bytes have two texts.

Main statements: `decode?_eq_some_iff`, `decode?_eq_none_iff`.
-/

namespace Proctor.Base64

/-- The characters for the values from 0 to 63. -/
def alphabet : List Char :=
  "ABCDEFGHIJKLMNOPQRSTUVWXYZabcdefghijklmnopqrstuvwxyz0123456789+/".toList

/-- The texts of groups of four characters, of which the last may be padded. The bits that padding leaves
unused are the low ones, so they are zero in every sixteenth or every fourth value. -/
inductive Canonical : List Char → Prop
  | nil : Canonical []
  | one {a b : Char} {n : Nat} : a ∈ alphabet → alphabet[16 * n]? = some b → Canonical [a, b, '=', '=']
  | two {a b c : Char} {n : Nat} : a ∈ alphabet → b ∈ alphabet → alphabet[4 * n]? = some c →
      Canonical [a, b, c, '=']
  | group {a b c d : Char} {rest : List Char} : a ∈ alphabet → b ∈ alphabet → c ∈ alphabet →
      d ∈ alphabet → Canonical rest → Canonical (a :: b :: c :: d :: rest)

theorem getElem?_alphabet {n : Nat} (h : n < 64) : alphabet[n]? = some (symbol n) := by
  have all : ∀ n < 64, alphabet[n]? = some (symbol n) := by decide
  exact all n h

theorem lt_of_getElem?_alphabet {n : Nat} {c : Char} (h : alphabet[n]? = some c) : n < 64 :=
  (List.getElem?_eq_some_iff.1 h).1

theorem toNat_lt_of_value? {c : Char} {n : Nat} (h : value? c = some n) : c.toNat < 128 := by
  by_contra hlarge
  have hplus : c ≠ '+' := by rintro rfl; exact hlarge (by decide)
  have hslash : c ≠ '/' := by rintro rfl; exact hlarge (by decide)
  rw [value?, if_neg (by omega), if_neg (by omega), if_neg (by omega), if_neg hplus, if_neg hslash] at h
  cases h

/-- Only the symbol of a value is read as that value. -/
theorem symbol_of_value? {c : Char} {n : Nat} (h : value? c = some n) : n < 64 ∧ symbol n = c := by
  have all : ∀ k < 128, ∀ n ∈ value? (Char.ofNat k), n < 64 ∧ symbol n = Char.ofNat k := by
    decide +kernel
  have hcode := all c.toNat (toNat_lt_of_value? h)
  rw [Char.ofNat_toNat] at hcode
  exact hcode n h

/-- A character stands for its place in the alphabet. -/
theorem value?_eq_some_iff {c : Char} {n : Nat} : value? c = some n ↔ alphabet[n]? = some c := by
  constructor
  · intro h
    obtain ⟨hn, rfl⟩ := symbol_of_value? h
    exact getElem?_alphabet hn
  · intro h
    have hn := lt_of_getElem?_alphabet h
    rw [getElem?_alphabet hn] at h
    cases h
    exact value?_symbol hn

theorem exists_value?_iff {c : Char} : (∃ n, value? c = some n) ↔ c ∈ alphabet := by
  simp only [value?_eq_some_iff, List.mem_iff_getElem?]

/-! ### Strict reading -/

theorem canonical_of_bytesOnto? {done bs : Bytes} {cs : List Char} (h : bytesOnto? done cs = some bs) :
    Canonical cs := by
  have mem {c : Char} {n : Nat} (hc : value? c = some n) : c ∈ alphabet := exists_value?_iff.1 ⟨n, hc⟩
  -- a last value without unused bits is a multiple of the number of their patterns
  have last {c : Char} {m n : Nat} (hc : value? c = some m) (hm : m % n = 0) :
      alphabet[n * (m / n)]? = some c := by
    rw [Nat.mul_div_cancel' (Nat.dvd_of_mod_eq_zero hm)]
    exact value?_eq_some_iff.1 hc
  fun_induction bytesOnto? done cs with
  | case1 => exact .nil
  | case2 done a b =>
    simp only [Option.bind_eq_bind, Option.bind_eq_some_iff] at h
    obtain ⟨m, ha, n, hb, h⟩ := h
    split at h
    · rename_i hn
      exact .one (mem ha) (last hb hn)
    · cases h
  | case3 done a b c =>
    simp only [Option.bind_eq_bind, Option.bind_eq_some_iff] at h
    obtain ⟨k, ha, m, hb, n, hc, h⟩ := h
    split at h
    · rename_i hn
      exact .two (mem ha) (mem hb) (last hc hn)
    · cases h
  | case4 done a b c d rest _ _ ih =>
    simp only [Option.bind_eq_bind, Option.bind_eq_some_iff] at h
    obtain ⟨k, ha, l, hb, m, hc, n, hd, h⟩ := h
    exact .group (mem ha) (mem hb) (mem hc) (mem hd) (ih k l m n h)
  | case5 => cases h

theorem exists_symbol {c : Char} (h : c ∈ alphabet) : ∃ n < 64, symbol n = c := by
  obtain ⟨n, hn⟩ := exists_value?_iff.2 h
  exact ⟨n, symbol_of_value? hn⟩

theorem symbol_of_getElem? {c : Char} {n : Nat} (h : alphabet[n]? = some c) : n < 64 ∧ symbol n = c :=
  symbol_of_value? (value?_eq_some_iff.2 h)

theorem exists_group_one {a n : Nat} (ha : a < 64) (hn : 16 * n < 64) :
    ∃ x, group [x] = [symbol a, symbol (16 * n), '=', '='] := by
  refine ⟨UInt8.ofNat (4 * a + n), ?_⟩
  have hx : (UInt8.ofNat (4 * a + n)).toNat = 4 * a + n := by
    rw [UInt8.toNat_ofNat']
    omega
  have hfirst : (4 * a + n) / 4 = a := by omega
  have hsecond : (4 * a + n) % 4 * 16 = 16 * n := by omega
  simp only [group, hx, hfirst, hsecond]

theorem exists_group_two {a b n : Nat} (ha : a < 64) (hb : b < 64) (hn : 4 * n < 64) :
    ∃ x y, group [x, y] = [symbol a, symbol b, symbol (4 * n), '='] := by
  refine ⟨UInt8.ofNat (4 * a + b / 16), UInt8.ofNat (16 * (b % 16) + n), ?_⟩
  have hx : (UInt8.ofNat (4 * a + b / 16)).toNat = 4 * a + b / 16 := by
    rw [UInt8.toNat_ofNat']
    omega
  have hy : (UInt8.ofNat (16 * (b % 16) + n)).toNat = 16 * (b % 16) + n := by
    rw [UInt8.toNat_ofNat']
    omega
  have hsum : (4 * a + b / 16) * 256 + (16 * (b % 16) + n) = 1024 * a + 16 * b + n := by omega
  have hfirst : (1024 * a + 16 * b + n) / 1024 = a := by omega
  have hsecond : (1024 * a + 16 * b + n) / 16 % 64 = b := by omega
  have hthird : (1024 * a + 16 * b + n) % 16 * 4 = 4 * n := by omega
  simp only [group, hx, hy, hsum, hfirst, hsecond, hthird]

theorem exists_group_three {a b c d : Nat} (ha : a < 64) (hb : b < 64) (hc : c < 64) (hd : d < 64) :
    ∃ x y z, group [x, y, z] = [symbol a, symbol b, symbol c, symbol d] := by
  refine ⟨UInt8.ofNat (4 * a + b / 16), UInt8.ofNat (16 * (b % 16) + c / 4),
    UInt8.ofNat (64 * (c % 4) + d), ?_⟩
  have hx : (UInt8.ofNat (4 * a + b / 16)).toNat = 4 * a + b / 16 := by
    rw [UInt8.toNat_ofNat']
    omega
  have hy : (UInt8.ofNat (16 * (b % 16) + c / 4)).toNat = 16 * (b % 16) + c / 4 := by
    rw [UInt8.toNat_ofNat']
    omega
  have hz : (UInt8.ofNat (64 * (c % 4) + d)).toNat = 64 * (c % 4) + d := by
    rw [UInt8.toNat_ofNat']
    omega
  have hsum : (4 * a + b / 16) * 65536 + (16 * (b % 16) + c / 4) * 256 + (64 * (c % 4) + d) =
      262144 * a + 4096 * b + 64 * c + d := by omega
  have hfirst : (262144 * a + 4096 * b + 64 * c + d) / 262144 = a := by omega
  have hsecond : (262144 * a + 4096 * b + 64 * c + d) / 4096 % 64 = b := by omega
  have hthird : (262144 * a + 4096 * b + 64 * c + d) / 64 % 64 = c := by omega
  have hfourth : (262144 * a + 4096 * b + 64 * c + d) % 64 = d := by omega
  simp only [group, hx, hy, hz, hsum, hfirst, hsecond, hthird, hfourth]

/-- A canonical text is what writing gives for some bytes. -/
theorem Canonical.exists_chars {cs : List Char} (h : Canonical cs) : ∃ bs, chars bs = cs := by
  induction h with
  | nil => exact ⟨[], rfl⟩
  | one ha hb =>
    obtain ⟨m, hm, rfl⟩ := exists_symbol ha
    obtain ⟨hn, rfl⟩ := symbol_of_getElem? hb
    obtain ⟨x, hx⟩ := exists_group_one hm hn
    exact ⟨[x], by simpa [chars, charsOnto] using hx⟩
  | two ha hb hc =>
    obtain ⟨l, hl, rfl⟩ := exists_symbol ha
    obtain ⟨m, hm, rfl⟩ := exists_symbol hb
    obtain ⟨hn, rfl⟩ := symbol_of_getElem? hc
    obtain ⟨x, y, hxy⟩ := exists_group_two hl hm hn
    exact ⟨[x, y], by simpa [chars, charsOnto] using hxy⟩
  | group ha hb hc hd _ ih =>
    obtain ⟨k, hk, rfl⟩ := exists_symbol ha
    obtain ⟨l, hl, rfl⟩ := exists_symbol hb
    obtain ⟨m, hm, rfl⟩ := exists_symbol hc
    obtain ⟨n, hn, rfl⟩ := exists_symbol hd
    obtain ⟨x, y, z, hxyz⟩ := exists_group_three hk hl hm hn
    obtain ⟨bs, rfl⟩ := ih
    exact ⟨x :: y :: z :: bs, by rw [chars_cons, hxyz]; rfl⟩

/-- Reading is strict: a text is read as some bytes only if it is the text that writing gives for them. -/
theorem decode?_eq_some_iff {s : String} {bs : Bytes} : decode? s = some bs ↔ s = encode bs := by
  constructor
  · intro h
    obtain ⟨cs, hcs⟩ := (canonical_of_bytesOnto? h).exists_chars
    have hs : s = encode cs := by rw [encode, hcs, String.ofList_toList]
    rw [hs, decode?_encode] at h
    rw [hs, Option.some.inj h]
  · rintro rfl
    exact decode?_encode bs

theorem decode?_eq_none_iff {s : String} : decode? s = none ↔ ¬Canonical s.toList := by
  constructor
  · intro h hs
    obtain ⟨bs, hbs⟩ := hs.exists_chars
    have hread : decode? s = some bs := by rw [decode?_eq_some_iff, encode, hbs, String.ofList_toList]
    rw [h] at hread
    cases hread
  · intro h
    cases hread : decode? s with
    | none => rfl
    | some bs => exact absurd (canonical_of_bytesOnto? hread) h

end Proctor.Base64
