import Mathlib.Data.List.Basic
import Proctor.Base64
import Proctor.Proofs.Trimming

/-!
Reading base64 undoes writing it, group by group, and a written text has no blanks around it.
-/

namespace Proctor.Base64

theorem value?_symbol {n : Nat} (h : n < 64) : value? (symbol n) = some n := by
  have all : ∀ n < 64, value? (symbol n) = some n := by decide
  exact all n h

theorem symbol_ne_pad {n : Nat} (h : n < 64) : symbol n ≠ '=' := by
  have all : ∀ n < 64, symbol n ≠ '=' := by decide
  exact all n h

theorem symbol_not_blank {n : Nat} (h : n < 64) : Text.isBlank (symbol n) = false := by
  have all : ∀ n < 64, Text.isBlank (symbol n) = false := by decide
  exact all n h

/-- Characters in hand stand in front of all that is written after them. -/
theorem charsOnto_append (done first : List Char) (bs : Bytes) :
    charsOnto (first ++ done) bs = done.reverse ++ charsOnto first bs := by
  fun_induction charsOnto first bs with
  | case1 first a b c rest ih =>
    rw [charsOnto, ← List.append_assoc]
    exact ih
  | case2 first rest h =>
    rw [charsOnto.eq_2 _ rest h]
    simp

theorem chars_cons (a b c : UInt8) (rest : Bytes) :
    chars (a :: b :: c :: rest) = group [a, b, c] ++ chars rest := by
  have h := charsOnto_append (group [a, b, c]).reverse [] rest
  rw [chars, charsOnto, List.append_nil]
  simpa [chars] using h

theorem toNat_lt (b : UInt8) : b.toNat < 256 := b.toNat_lt

theorem ofNat_toNat_add {n : Nat} (b : UInt8) (h : n % 256 = b.toNat) : UInt8.ofNat n = b := by
  apply UInt8.toNat_inj.1
  rw [UInt8.toNat_ofNat']
  exact h

/-- A whole group is read as its three bytes, whatever follows. -/
theorem bytesOnto?_group (done : Bytes) (a b c : UInt8) (rest : List Char) :
    bytesOnto? done (group [a, b, c] ++ rest) = bytesOnto? ([a, b, c].reverse ++ done) rest := by
  have ha := toNat_lt a
  have hb := toNat_lt b
  have hc := toNat_lt c
  simp only [group, List.cons_append, List.nil_append]
  rw [bytesOnto?]
  · rw [value?_symbol (by omega), value?_symbol (by omega), value?_symbol (by omega),
      value?_symbol (by omega)]
    simp only [Option.bind_eq_bind, Option.bind_some, threeBytes]
    rw [ofNat_toNat_add a (by omega), ofNat_toNat_add b (by omega), ofNat_toNat_add c (by omega)]
  · intro _ h
    exact absurd h (symbol_ne_pad (by omega))
  · intro h
    exact absurd h (symbol_ne_pad (by omega))

theorem bytesOnto?_one (done : Bytes) (a : UInt8) :
    bytesOnto? done (group [a]) = some (done.reverse ++ [a]) := by
  have ha := toNat_lt a
  have unused : a.toNat % 4 * 16 % 16 = 0 := by omega
  simp only [group]
  rw [bytesOnto?, value?_symbol (by omega), value?_symbol (by omega)]
  simp only [Option.bind_eq_bind, Option.bind_some, unused, if_true, threeBytes]
  rw [ofNat_toNat_add a (by omega)]
  simp

theorem bytesOnto?_two (done : Bytes) (a b : UInt8) :
    bytesOnto? done (group [a, b]) = some (done.reverse ++ [a, b]) := by
  have ha := toNat_lt a
  have hb := toNat_lt b
  have unused : (a.toNat * 256 + b.toNat) % 16 * 4 % 4 = 0 := by omega
  simp only [group]
  rw [bytesOnto?, value?_symbol (by omega), value?_symbol (by omega), value?_symbol (by omega)]
  · simp only [Option.bind_eq_bind, Option.bind_some, unused, if_true, threeBytes]
    rw [ofNat_toNat_add a (by omega), ofNat_toNat_add b (by omega)]
    simp
  · intro h
    exact absurd h (symbol_ne_pad (by omega))

/-- Reading what is written for some bytes gives the bytes. -/
theorem bytesOnto?_chars (done bs : Bytes) : bytesOnto? done (chars bs) = some (done.reverse ++ bs) := by
  match bs with
  | [] => simp [chars, charsOnto, group, bytesOnto?]
  | [a] => simpa [chars, charsOnto] using bytesOnto?_one done a
  | [a, b] => simpa [chars, charsOnto] using bytesOnto?_two done a b
  | a :: b :: c :: rest =>
    rw [chars_cons, bytesOnto?_group, bytesOnto?_chars _ rest]
    simp

/-- Bytes are read back from their text. -/
@[simp] theorem decode?_encode (bs : Bytes) : decode? (encode bs) = some bs := by
  simp [decode?, encode, decodeChars?, bytesOnto?_chars]

theorem group_not_blank (bs : Bytes) (c : Char) (hc : c ∈ group bs) : Text.isBlank c = false := by
  have pad : Text.isBlank '=' = false := by decide
  unfold group at hc
  split at hc
  · cases hc
  · rename_i a
    have ha := toNat_lt a
    simp only [List.mem_cons, List.not_mem_nil, or_false] at hc
    rcases hc with rfl | rfl | rfl | rfl
    · exact symbol_not_blank (by omega)
    · exact symbol_not_blank (by omega)
    · exact pad
    · exact pad
  · rename_i a b
    have ha := toNat_lt a
    have hb := toNat_lt b
    simp only [List.mem_cons, List.not_mem_nil, or_false] at hc
    rcases hc with rfl | rfl | rfl | rfl
    · exact symbol_not_blank (by omega)
    · exact symbol_not_blank (by omega)
    · exact symbol_not_blank (by omega)
    · exact pad
  · rename_i a b c rest
    have ha := toNat_lt a
    have hb := toNat_lt b
    have hc' := toNat_lt c
    simp only [List.mem_cons, List.not_mem_nil, or_false] at hc
    rcases hc with rfl | rfl | rfl | rfl <;> exact symbol_not_blank (by omega)

theorem chars_not_blank (bs : Bytes) (c : Char) (hc : c ∈ chars bs) : Text.isBlank c = false := by
  match bs with
  | [] => exact group_not_blank [] c (by simpa [chars, charsOnto] using hc)
  | [a] => exact group_not_blank [a] c (by simpa [chars, charsOnto] using hc)
  | [a, b] => exact group_not_blank [a, b] c (by simpa [chars, charsOnto] using hc)
  | a₁ :: a₂ :: a₃ :: rest =>
    rw [chars_cons] at hc
    rcases List.mem_append.1 hc with hc | hc
    · exact group_not_blank _ c hc
    · exact chars_not_blank rest c hc

/-- No blanks are trimmed from a written text. -/
@[simp] theorem trim_encode (bs : Bytes) : Text.trim (encode bs) = encode bs := by
  rw [Text.trim, encode, String.toList_ofList, Text.trimChars_of_shown (chars_not_blank bs)]

end Proctor.Base64
