import Proctor.Proofs.Base64
import Proctor.Proofs.KeyMap
import Proctor.Proofs.Lists
import Proctor.Proofs.Utf8
import Proctor.Signature

/-!
The canonical text tells fields apart. Escaping is injective and leaves no separator in a key or a value,
so the text splits in one way into its pairs, and the pairs give back the values of every key. Main
statement: two texts are equal exactly when every key has the same values in the same order.
-/

namespace Proctor.Signature

theorem toNat_char_ofNat {n : Nat} (h : n < 256) : (Char.ofNat n).toNat = n := by
  have hv : n.isValidChar := Or.inl (by omega)
  rw [Char.ofNat, dif_pos hv]
  rfl

theorem char_toNat_injective {a b : UInt8} (h : Char.ofNat a.toNat = Char.ofNat b.toNat) : a = b := by
  have hn := congrArg Char.toNat h
  rw [toNat_char_ofNat a.toNat_lt, toNat_char_ofNat b.toNat_lt] at hn
  exact UInt8.toNat_inj.1 hn

/-- No separator and no escape stands for itself. -/
theorem plain_char_ne {b : UInt8} (h : isPlain b = true) {n : Nat} (hn : n < 256)
    (hp : isPlain (UInt8.ofNat n) = false) : Char.ofNat b.toNat ≠ Char.ofNat n := by
  intro he
  have hc := congrArg Char.toNat he
  rw [toNat_char_ofNat b.toNat_lt, toNat_char_ofNat hn] at hc
  have hb : b = UInt8.ofNat n := by rw [← hc, UInt8.ofNat_toNat]
  rw [← hb, h] at hp
  cases hp

theorem upperHexDigit_injective {m n : Nat} (hm : m < 16) (hn : n < 16)
    (h : upperHexDigit m = upperHexDigit n) : m = n := by
  have all : ∀ m < 16, ∀ n < 16, upperHexDigit m = upperHexDigit n → m = n := by decide
  exact all m hm n hn h

theorem upperHexDigit_not_separator {n : Nat} (hn : n < 16) :
    upperHexDigit n ≠ '&' ∧ upperHexDigit n ≠ '=' := by
  have all : ∀ n < 16, upperHexDigit n ≠ '&' ∧ upperHexDigit n ≠ '=' := by decide
  exact all n hn

theorem escapeByte_not_separator (b : UInt8) : '&' ∉ escapeByte b ∧ '=' ∉ escapeByte b := by
  unfold escapeByte
  split
  · rename_i hb
    have hamp : Char.ofNat b.toNat ≠ Char.ofNat 38 := plain_char_ne hb (by decide) (by decide)
    have heq : Char.ofNat b.toNat ≠ Char.ofNat 61 := plain_char_ne hb (by decide) (by decide)
    exact ⟨by simpa using hamp.symm, by simpa using heq.symm⟩
  · have hb := b.toNat_lt
    have high := upperHexDigit_not_separator (n := b.toNat / 16) (by omega)
    have low := upperHexDigit_not_separator (n := b.toNat % 16) (by omega)
    simp [high.1.symm, high.2.symm, low.1.symm, low.2.symm]

/-- Escaped bytes are read off one after another. -/
theorem escapeByte_append_inj {b c : UInt8} {s t : List Char}
    (h : escapeByte b ++ s = escapeByte c ++ t) : b = c ∧ s = t := by
  have percent : Char.ofNat 37 = '%' := rfl
  unfold escapeByte at h
  split at h <;> split at h
  · simp only [List.cons_append, List.nil_append, List.cons.injEq] at h
    exact ⟨char_toNat_injective h.1, h.2⟩
  · rename_i hb _
    simp only [List.cons_append, List.nil_append, List.cons.injEq] at h
    exact absurd (h.1.trans percent.symm) (plain_char_ne hb (by decide) (by decide))
  · rename_i _ hc
    simp only [List.cons_append, List.nil_append, List.cons.injEq] at h
    exact absurd (h.1.symm.trans percent.symm) (plain_char_ne hc (by decide) (by decide))
  · have hb := b.toNat_lt
    have hc := c.toNat_lt
    simp only [List.cons_append, List.nil_append, List.cons.injEq, true_and] at h
    have high := upperHexDigit_injective (by omega) (by omega) h.1
    have low := upperHexDigit_injective (by omega) (by omega) h.2.1
    exact ⟨UInt8.toNat_inj.1 (by omega), h.2.2⟩

theorem escapeChars_injective {bs cs : Bytes} (h : escapeChars bs = escapeChars cs) : bs = cs := by
  have nonempty (b : UInt8) : escapeByte b ≠ [] := by
    unfold escapeByte
    split <;> simp
  exact flatMap_injective nonempty escapeByte_append_inj h

theorem escapeChars_not_separator (bs : Bytes) : '&' ∉ escapeChars bs ∧ '=' ∉ escapeChars bs := by
  constructor
  · intro h
    obtain ⟨b, _, hb⟩ := List.mem_flatMap.1 h
    exact (escapeByte_not_separator b).1 hb
  · intro h
    obtain ⟨b, _, hb⟩ := List.mem_flatMap.1 h
    exact (escapeByte_not_separator b).2 hb

/-- The values that some pairs give a key, in their order. -/
def valuesAt (key : String) (pairs : List (String × Bytes)) : List Bytes :=
  pairs.filterMap fun p => if p.1 = key then some p.2 else none

@[simp] theorem valuesAt_nil (key : String) : valuesAt key [] = [] := rfl

theorem valuesAt_cons (key : String) (p : String × Bytes) (pairs : List (String × Bytes)) :
    valuesAt key (p :: pairs) = (if p.1 = key then [p.2] else []) ++ valuesAt key pairs := by
  by_cases h : p.1 = key <;> simp [valuesAt, h]

@[simp] theorem valuesAt_append (key : String) (pairs pairs' : List (String × Bytes)) :
    valuesAt key (pairs ++ pairs') = valuesAt key pairs ++ valuesAt key pairs' := by
  simp [valuesAt]

theorem valuesAt_flatMap {α : Type} (key : String) (l : List α) (f : α → List (String × Bytes)) :
    valuesAt key (l.flatMap f) = l.flatMap fun a => valuesAt key (f a) := by
  induction l with
  | nil => rfl
  | cons a l ih => simp [ih]

theorem valuesAt_eq_nil {key : String} {pairs : List (String × Bytes)}
    (h : ∀ p ∈ pairs, p.1 ≠ key) : valuesAt key pairs = [] := by
  simp only [valuesAt, List.filterMap_eq_nil_iff]
  intro p hp
  rw [if_neg (h p hp)]

namespace Fields

/-- The values of a key, in their order; a key that was never added has none. -/
def valuesOf (f : Fields) (key : String) : List Bytes :=
  (f.values.find? key).getD []

def addPairs (f : Fields) (pairs : List (String × Bytes)) : Fields :=
  pairs.foldl (fun f p => f.add p.1 p.2) f

@[simp] theorem valuesOf_empty (key : String) : empty.valuesOf key = [] := rfl

theorem valuesOf_addAll (f : Fields) (key : String) (values : List Bytes) (key' : String) :
    (f.addAll key values).valuesOf key' =
      f.valuesOf key' ++ if key = key' then values else [] := by
  simp only [valuesOf, addAll, KeyMap.find?_insert]
  by_cases h : key' = key
  · subst h
    simp
  · simp [h, Ne.symm h]

theorem valuesOf_add (f : Fields) (key : String) (value : Bytes) (key' : String) :
    (f.add key value).valuesOf key' = f.valuesOf key' ++ if key = key' then [value] else [] :=
  valuesOf_addAll f key [value] key'

theorem valuesOf_addPairs (f : Fields) (pairs : List (String × Bytes)) (key : String) :
    (f.addPairs pairs).valuesOf key = f.valuesOf key ++ valuesAt key pairs := by
  induction pairs generalizing f with
  | nil => simp [addPairs]
  | cons p pairs ih =>
    rw [addPairs, List.foldl_cons, ← addPairs, ih, valuesOf_add, valuesAt_cons, List.append_assoc]

/-- All pairs, before they are written. -/
def flat (f : Fields) : List (String × Bytes) :=
  f.values.entries.flatMap fun p => p.2.map (p.1, ·)

theorem pairs_eq_map_flat (f : Fields) : f.pairs = f.flat.map fun p => pairChars p.1 p.2 := by
  simp only [pairs, flat, List.map_flatMap, List.map_map]
  rfl

theorem pairChars_injective {key key' : String} {value value' : Bytes}
    (h : pairChars key value = pairChars key' value') : key = key' ∧ value = value' := by
  have hs := append_separator_inj (escapeChars_not_separator _).2 (escapeChars_not_separator _).2 h
  exact ⟨Utf8.encode_injective (escapeChars_injective hs.1), escapeChars_injective hs.2⟩

theorem pairChars_no_ampersand (key : String) (value : Bytes) : '&' ∉ pairChars key value := by
  simp only [pairChars, List.mem_append, List.mem_cons, not_or]
  exact ⟨(escapeChars_not_separator _).1, by decide, (escapeChars_not_separator _).1⟩

/-- What separates pairs stands in none of them. -/
theorem pairs_no_ampersand (f : Fields) : ∀ l ∈ f.pairs, '&' ∉ l := by
  rw [pairs_eq_map_flat]
  intro l hl
  obtain ⟨p, _, rfl⟩ := List.mem_map.1 hl
  exact pairChars_no_ampersand p.1 p.2

/-- The text splits into its pairs at the separators. -/
theorem pairs_eq_of_chars_eq {f g : Fields} (h : f.chars = g.chars) : f.pairs = g.pairs := by
  have nonempty {f : Fields} (hf : f.pairs ≠ []) : f.chars ≠ [] := by
    have hsplit := List.splitOn_intercalate '&' f.pairs_no_ampersand hf
    intro hn
    rw [← chars, hn, List.splitOn_nil, pairs_eq_map_flat] at hsplit
    cases hflat : f.flat with
    | nil => rw [hflat] at hsplit; cases hsplit
    | cons p rest =>
      rw [hflat, List.map_cons, List.cons.injEq] at hsplit
      simp [pairChars] at hsplit
  by_cases hf : f.pairs = []
  · by_cases hg : g.pairs = []
    · rw [hf, hg]
    · exact absurd (h.symm.trans (by rw [chars, hf]; rfl)) (nonempty hg)
  · by_cases hg : g.pairs = []
    · exact absurd (h.trans (by rw [chars, hg]; rfl)) (nonempty hf)
    · rw [← List.splitOn_intercalate '&' f.pairs_no_ampersand hf,
        ← List.splitOn_intercalate '&' g.pairs_no_ampersand hg, ← chars, ← chars, h]

theorem flat_eq_of_pairs_eq {f g : Fields} (h : f.pairs = g.pairs) : f.flat = g.flat := by
  rw [pairs_eq_map_flat, pairs_eq_map_flat] at h
  refine List.map_injective_iff.2 ?_ h
  intro p q hpq
  obtain ⟨hk, hv⟩ := pairChars_injective hpq
  exact Prod.ext hk hv

/-- The pairs tell the values of every key in their order. -/
theorem valuesAt_flat (f : Fields) (key : String) : valuesAt key f.flat = f.valuesOf key := by
  have own (p : String × List Bytes) :
      valuesAt key (p.2.map (p.1, ·)) = if p.1 = key then p.2 else [] := by
    by_cases h : p.1 = key <;> simp [valuesAt, List.filterMap_map, h]
  simp only [flat, valuesAt_flatMap, own]
  rw [KeyMap.flatMap_key f.values.sorted key (fun values => values), valuesOf, KeyMap.find?]
  cases f.values.entries.lookup key <;> rfl

/-- The entries with at least one value, which are those that are written. -/
def written (f : Fields) : KeyMap (List Bytes) :=
  f.values.filter fun _ values => !values.isEmpty

theorem flat_eq_written (f : Fields) :
    f.flat = f.written.entries.flatMap fun p => p.2.map (p.1, ·) := by
  have drop (l : List (String × List Bytes)) :
      (l.flatMap fun p => p.2.map (p.1, ·)) =
        (l.filter fun p => !p.2.isEmpty).flatMap fun p => p.2.map (p.1, ·) := by
    induction l with
    | nil => rfl
    | cons p rest ih =>
      obtain ⟨k, values⟩ := p
      cases values <;> simp [ih]
  exact drop f.values.entries

theorem written_eq_of_valuesOf_eq {f g : Fields} (h : ∀ key, f.valuesOf key = g.valuesOf key) :
    f.written = g.written := by
  have found (f : Fields) (key : String) :
      f.written.find? key = if f.valuesOf key = [] then none else some (f.valuesOf key) := by
    rw [written, KeyMap.find?_filter, valuesOf]
    cases f.values.find? key with
    | none => rfl
    | some values => cases values <;> simp [Option.filter]
  apply KeyMap.ext_find?
  intro key
  rw [found, found, h key]

/-- Two canonical texts are equal exactly when every key has the same values in the same order. -/
theorem encode_eq_iff {f g : Fields} :
    f.encode = g.encode ↔ ∀ key, f.valuesOf key = g.valuesOf key := by
  constructor
  · intro h key
    have hchars : f.chars = g.chars := by simpa [encode] using congrArg String.toList h
    rw [← valuesAt_flat, ← valuesAt_flat, flat_eq_of_pairs_eq (pairs_eq_of_chars_eq hchars)]
  · intro h
    rw [encode, encode, chars, chars, pairs_eq_map_flat, pairs_eq_map_flat, flat_eq_written,
      flat_eq_written, written_eq_of_valuesOf_eq h]

/-- A signature is accepted exactly when it spells the digest of the fields. -/
theorem verify_eq_ok_iff {f : Fields} {secret : Bytes} {signature record : String} :
    f.verify secret signature record = .ok () ↔
      Base64.decode? (Text.trim signature) = some (f.digest secret) := by
  unfold verify
  cases Base64.decode? (Text.trim signature) with
  | none => simp
  | some bytes => by_cases h : bytes = f.digest secret <;> simp [h]

/-- What is signed is accepted under the same secret. -/
theorem verify_sign (f : Fields) (secret : Bytes) (record : String) :
    f.verify secret (f.sign secret) record = .ok () := by
  rw [verify_eq_ok_iff, sign, Base64.trim_encode, Base64.decode?_encode]

theorem digest_ne_nil (f : Fields) (secret : Bytes) : f.digest secret ≠ [] := by
  simp [digest, Sha256.hmac, Sha256.hash, Sha256.wordBytes]

theorem sign_ne_empty (f : Fields) (secret : Bytes) : f.sign secret ≠ "" := by
  intro h
  have hdigest := Base64.decode?_encode (f.digest secret)
  rw [show Base64.encode (f.digest secret) = "" from h] at hdigest
  exact digest_ne_nil f secret (Option.some.inj hdigest).symm

/-- A signature that two sets of fields share is that of one digest. -/
theorem digest_eq_of_verify {f g : Fields} {secret : Bytes} {signature record record' : String}
    (hf : f.verify secret signature record = .ok ())
    (hg : g.verify secret signature record' = .ok ()) : f.digest secret = g.digest secret := by
  rw [verify_eq_ok_iff] at hf hg
  rw [hf] at hg
  exact Option.some.inj hg

end Fields

end Proctor.Signature
