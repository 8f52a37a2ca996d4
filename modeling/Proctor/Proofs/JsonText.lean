import Mathlib.Tactic.IntervalCases
import Proctor.Json.Printer
import Proctor.Json.Reader
import Proctor.Proofs.Decimal

/-!
Reading back a written document. Writing is split into tokens: the characters written for a value
are scanned to its tokens, whatever follows, and the tokens are read as the value.

Main statement: `ofText?_print`.
-/

namespace Proctor

namespace Json

/-- Values that have a text of their own: strings are characters, and places are digits. -/
inductive Writable : Json → Prop
  | null : Writable .null
  | bool (b : Bool) : Writable (.bool b)
  | number {n : Numeral} (places : ∀ d ∈ n.fraction, d < 10) : Writable (.number n)
  | text (s : String) : Writable (.text s)
  | array {items : List Json} (values : ∀ item ∈ items, Writable item) : Writable (.array items)
  | object {members : List (Option String × Json)} (keys : ∀ m ∈ members, m.1.isSome)
      (values : ∀ m ∈ members, Writable m.2) : Writable (.object members)

mutual

/-- The tokens of a value. -/
def tokens : Json → List Token
  | .null => [.null]
  | .bool b => [.bool b]
  | .number n => [.number n]
  | .text s => [.text (some s)]
  | .brokenText => [.text none]
  | .array [] => [.openArray, .closeArray]
  | .array (item :: items) => .openArray :: tokens item ++ itemTokens items
  | .object [] => [.openObject, .closeObject]
  | .object ((key, value) :: members) =>
    .openObject :: .text key :: .colon :: tokens value ++ memberTokens members

/-- The tokens of the items after the first, and of the end of the array. -/
def itemTokens : List Json → List Token
  | [] => [.closeArray]
  | item :: items => .comma :: tokens item ++ itemTokens items

/-- The tokens of the members after the first, and of the end of the object. -/
def memberTokens : List (Option String × Json) → List Token
  | [] => [.closeObject]
  | (key, value) :: members => .comma :: .text key :: .colon :: tokens value ++ memberTokens members

end

/-! ### Scanning -/

/-- The characters are scanned to the tokens in front of `rest`. A token is at least one character,
so the characters are fuel enough. -/
structure Scans (cs : List Char) (ts : List Token) (rest : List Symbol) : Prop where
  length_le : ts.length ≤ cs.length
  onto : ∀ read fuel, tokensOnto? read (ts.length + fuel) (cs.map some ++ rest) =
    tokensOnto? (ts.reverse ++ read) fuel rest

/-- Characters scanned one after the other are scanned together. -/
theorem Scans.append {cs cs' : List Char} {ts ts' : List Token} {rest : List Symbol}
    (h : Scans cs ts (cs'.map some ++ rest)) (h' : Scans cs' ts' rest) :
    Scans (cs ++ cs') (ts ++ ts') rest where
  length_le := by
    have hle := h.length_le
    have hle' := h'.length_le
    simp only [List.length_append]
    omega
  onto read fuel := by
    rw [List.length_append, Nat.add_assoc, List.map_append, List.append_assoc, h.onto, h'.onto,
      List.reverse_append, List.append_assoc]

theorem Scans.one {c : Char} {cs : List Char} {t : Token} {rest : List Symbol}
    (hspace : isSpace c = false) (h : Token.starting? c (cs.map some ++ rest) = some (t, rest)) :
    Scans (c :: cs) [t] rest where
  length_le := by simp
  onto read fuel := by
    rw [List.length_singleton, Nat.add_comm 1 fuel, List.map_cons, List.cons_append, tokensOnto?,
      hspace]
    simp [h]

theorem Scans.cons {c : Char} {cs : List Char} {t : Token} {ts : List Token} {rest : List Symbol}
    (hspace : isSpace c = false)
    (h : Token.starting? c (cs.map some ++ rest) = some (t, cs.map some ++ rest))
    (htail : Scans cs ts rest) : Scans (c :: cs) (t :: ts) rest := by
  have hone : Scans [c] [t] (cs.map some ++ rest) := Scans.one hspace h
  exact hone.append htail

/-- What may stand after a value of a container, or after the document. -/
def Ends (rest : List Symbol) : Prop :=
  ∀ s ∈ rest.head?, s = some ',' ∨ s = some ']' ∨ s = some '\x7d'

/-! #### Strings -/

theorem hexValue?_digit {n : Nat} (h : n < 16) : Hex.value? (Hex.digit n) = some n := by
  have all : ∀ n < 16, Hex.value? (Hex.digit n) = some n := by decide
  exact all n h

/-- One character of a string is read back from its escaped form. -/
theorem string?_escapedChar (read : List Char) (c : Char) (rest : List Symbol) :
    string? (some read) none ((escapedChar c).map some ++ rest) =
      string? (some (c :: read)) none rest := by
  unfold escapedChar
  split
  case h_8 h1 h2 h3 h4 h5 h6 h7 =>
    split
    · rename_i hlow
      have hunit : unit16? (some '0') (some '0') (some (Hex.digit (c.toNat / 16)))
          (some (Hex.digit (c.toNat % 16))) = some c.toNat := by
        have hzero : Hex.value? '0' = some 0 := by decide
        simp only [unit16?, Option.bind_eq_bind, Option.bind_some, hzero,
          hexValue?_digit (show c.toNat / 16 < 16 by omega),
          hexValue?_digit (show c.toNat % 16 < 16 by omega)]
        congr 1
        omega
      have hbyte : (UInt8.ofNat c.toNat).toNat = c.toNat := by
        rw [UInt8.toNat_ofNat']
        omega
      have hpush : Partial.pushUnit (some read) none c.toNat = (some (c :: read), none) := by
        have hhigh : isHighSurrogate c.toNat = false := by simp [isHighSurrogate]; omega
        have hlow : isLowSurrogate c.toNat = false := by simp [isLowSurrogate]; omega
        simp [Partial.pushUnit, hhigh, hlow, Partial.push]
      simp only [Hex.ofByte, hbyte, List.cons_append, List.nil_append, List.map_cons, List.map_nil]
      rw [string?, hunit]
      simp only [hpush]
    · rename_i hhigh
      have hplain : ¬(c = '\\' ∨ c.toNat < 0x20) := by
        rintro (rfl | h)
        · exact h2 rfl
        · exact hhigh h
      simp only [List.map_cons, List.map_nil, List.cons_append, List.nil_append]
      rw [string?.eq_6]
      · rw [if_neg hplain]
        rfl
      all_goals simp_all
  all_goals rfl

/-- A whole string is read back up to its closing quote. -/
theorem string?_escaped (read cs : List Char) (rest : List Symbol) :
    string? (some read) none ((cs.flatMap escapedChar).map some ++ some '"' :: rest) =
      some (some (String.ofList (read.reverse ++ cs)), rest) := by
  induction cs generalizing read with
  | nil => simp [string?, Partial.settle]
  | cons c cs ih =>
    rw [List.flatMap_cons, List.map_append, List.append_assoc, string?_escapedChar, ih]
    simp

theorem scans_string (s : String) (rest : List Symbol) :
    Scans (stringChars s) [.text (some s)] rest := by
  have hchars : stringChars s = '"' :: (s.toList.flatMap escapedChar ++ ['"']) := rfl
  have hread := string?_escaped [] s.toList rest
  rw [hchars]
  apply Scans.one rfl
  simp only [Token.starting?, List.map_append, List.append_assoc, List.map_cons, List.map_nil,
    List.cons_append, List.nil_append]
  rw [hread]
  simp

/-! #### Numbers -/

/-- No digit goes on with the digits before. -/
def NoDigit (rest : List Symbol) : Prop :=
  ∀ c, some (some c) = rest.head? → Decimal.digit? c = none

theorem digitRun_digits (read ds : List Nat) {rest : List Symbol} (hds : ∀ d ∈ ds, d < 10)
    (hrest : NoDigit rest) :
    digitRun read ((ds.map Decimal.char).map some ++ rest) = (read.reverse ++ ds, rest) := by
  induction ds generalizing read with
  | nil =>
    rw [List.map_nil, List.map_nil, List.nil_append, List.append_nil]
    match rest, hrest with
    | [], _ => rfl
    | none :: rest, _ => rfl
    | some c :: rest, hrest => rw [digitRun, hrest c rfl]
  | cons d ds ih =>
    rw [List.map_cons, List.map_cons, List.cons_append, digitRun,
      Decimal.digit?_char (hds d (.head _))]
    have htail := ih (d :: read) fun e he => hds e (.tail _ he)
    simpa using htail

/-- A whole number is read back: its first digit is zero only if it is zero. -/
theorem whole?_chars (n : Nat) {rest : List Symbol} (hrest : NoDigit rest) :
    whole? ((Decimal.chars n).map some ++ rest) = some (n, rest) := by
  by_cases hn : n = 0
  · subst hn
    have hzero : Decimal.chars 0 = ['0'] := by
      rw [Decimal.chars, Decimal.digits, Decimal.digitsOnto]
      rfl
    rw [hzero]
    rfl
  · obtain ⟨d, ds, hdigits, hd⟩ := Decimal.digits_head hn
    have hlt : d < 10 := by
      apply Decimal.digits_lt (n := n)
      rw [hdigits]
      exact .head ds
    have hfirst : Decimal.char d ≠ '0' := fun h =>
      hd (Decimal.char_injective hlt (by decide) h)
    have hrun := digitRun_digits [] (Decimal.digits n) (fun _ => Decimal.digits_lt) hrest
    have hvalue := Decimal.value_digits n
    rw [hdigits, List.map_cons, List.map_cons, List.cons_append] at hrun
    rw [Decimal.chars, hdigits, List.map_cons, List.map_cons, List.cons_append, whole?]
    · rw [hrun, ← hvalue, hdigits]
      rfl
    · intro rest' h
      exact hfirst (by simpa using (List.cons.inj h).1)

/-- The places of a fraction are read back with the zeros at their end. -/
theorem fraction?_places (ds : List Nat) {rest : List Symbol} (hds : ∀ d ∈ ds, d < 10)
    (hrest : NoDigit rest) (hpoint : rest.head? ≠ some (some '.')) :
    fraction? (((if ds.isEmpty then [] else '.' :: ds.map Decimal.char) : List Char).map some ++ rest)
      = some (ds, rest) := by
  cases ds with
  | nil =>
    rw [List.isEmpty_nil, if_pos rfl, List.map_nil, List.nil_append, fraction?]
    intro rest' h
    exact hpoint (by rw [h]; rfl)
  | cons d ds =>
    have hrun := digitRun_digits [] (d :: ds) hds hrest
    rw [List.isEmpty_cons, if_neg Bool.false_ne_true, List.map_cons, List.cons_append, fraction?,
      hrun]
    rfl

theorem exponentDigits?_chars (negative : Bool) (n : Nat) {rest : List Symbol}
    (hrest : NoDigit rest) :
    exponentDigits? negative ((Decimal.chars n).map some ++ rest) =
      some (some (if negative then -(n : Int) else n), rest) := by
  have hrun := digitRun_digits [] (Decimal.digits n) (fun _ => Decimal.digits_lt) hrest
  have hvalue := Decimal.value_digits n
  rw [Decimal.chars, exponentDigits?, hrun]
  cases hdigits : Decimal.digits n with
  | nil => exact absurd (by rw [Decimal.chars, hdigits]; rfl) (Decimal.chars_ne_nil n)
  | cons d ds =>
    rw [hdigits] at hvalue
    simp only [List.reverse_nil, List.nil_append, hvalue]

/-- What a numeral ends with: its exponent, when it has one. -/
def exponentChars : Option Int → List Char
  | none => []
  | some e => 'e' :: (if e < 0 then '-' else '+') :: Decimal.chars e.natAbs

/-- An exponent is read back with its sign. -/
theorem exponent?_chars (e : Option Int) {rest : List Symbol} (hrest : NoDigit rest)
    (hmark : ∀ c, some (some c) = rest.head? → c ≠ 'e' ∧ c ≠ 'E') :
    exponent? ((exponentChars e).map some ++ rest) = some (e, rest) := by
  cases e with
  | none =>
    rw [exponentChars, List.map_nil, List.nil_append]
    match rest, hmark with
    | [], _ => rfl
    | none :: rest, _ => rfl
    | some c :: rest, hmark =>
      obtain ⟨hlower, hupper⟩ := hmark c rfl
      simp [exponent?, hlower, hupper]
  | some e =>
    rw [exponentChars]
    by_cases he : e < 0
    · have hvalue : -((e.natAbs : Nat) : Int) = e := by omega
      simp only [he, if_true, List.map_cons, List.cons_append, exponent?, true_or,
        exponentDigits?_chars true e.natAbs hrest, hvalue]
    · have hvalue : ((e.natAbs : Nat) : Int) = e := by omega
      simp only [he, if_false, List.map_cons, List.cons_append, exponent?, true_or, if_true,
        exponentDigits?_chars false e.natAbs hrest, Bool.false_eq_true, hvalue]

theorem Ends.head_cases {rest : List Symbol} (h : Ends rest) {c : Char}
    (hc : some (some c) = rest.head?) : c = ',' ∨ c = ']' ∨ c = '\x7d' := by
  simpa using h (some c) hc.symm

theorem Ends.noDigit {rest : List Symbol} (h : Ends rest) : NoDigit rest := by
  intro c hc
  rcases h.head_cases hc with rfl | rfl | rfl <;> decide

theorem noDigit_exponentChars (e : Option Int) {rest : List Symbol} (h : Ends rest) :
    NoDigit ((exponentChars e).map some ++ rest) := by
  cases e with
  | none => exact h.noDigit
  | some e =>
    intro c hc
    have hmark : c = 'e' := by simpa [exponentChars] using hc
    subst hmark
    decide

/-- Every part of a numeral is kept. -/
theorem numeral?_chars {n : Numeral} (hn : ∀ d ∈ n.fraction, d < 10) {rest : List Symbol}
    (h : Ends rest) (negative : Bool) :
    numeral? negative ((Decimal.chars n.whole ++
      ((if n.fraction.isEmpty then [] else '.' :: n.fraction.map Decimal.char) ++
        exponentChars n.exponent)).map some ++ rest) =
      some (⟨negative, n.whole, n.fraction, n.exponent⟩, rest) := by
  have hexponent : NoDigit ((exponentChars n.exponent).map some ++ rest) :=
    noDigit_exponentChars n.exponent h
  have hpoint : ((exponentChars n.exponent).map some ++ rest).head? ≠ some (some '.') := by
    cases n.exponent with
    | none =>
      intro hc
      rcases h.head_cases hc.symm with h | h | h <;> exact absurd h (by decide)
    | some e => simp [exponentChars]
  have hfraction : NoDigit
      (((if n.fraction.isEmpty then [] else '.' :: n.fraction.map Decimal.char) : List Char).map some ++
        ((exponentChars n.exponent).map some ++ rest)) := by
    cases n.fraction with
    | nil => exact hexponent
    | cons d ds =>
      intro c hc
      have hmark : c = '.' := by simpa using hc
      subst hmark
      decide
  have hmark (c : Char) (hc : some (some c) = rest.head?) : c ≠ 'e' ∧ c ≠ 'E' := by
    rcases h.head_cases hc with rfl | rfl | rfl <;> decide
  rw [List.map_append, List.append_assoc, List.map_append, List.append_assoc, numeral?]
  simp only [whole?_chars n.whole hfraction, fraction?_places n.fraction hn hexponent hpoint,
    exponent?_chars n.exponent h.noDigit hmark, Option.bind_eq_bind, Option.bind_some]

theorem starting?_digit {d : Nat} (h : d < 10) (rest : List Symbol) :
    Token.starting? (Decimal.char d) rest =
      (numeral? false (some (Decimal.char d) :: rest)).map fun (n, rest) => (.number n, rest) := by
  interval_cases d <;> rfl

theorem isSpace_digit {d : Nat} (h : d < 10) : isSpace (Decimal.char d) = false := by
  have all : ∀ d < 10, isSpace (Decimal.char d) = false := by decide
  exact all d h

/-- A numeral is one token, with its sign or without. -/
theorem scans_numeral {n : Numeral} (hn : ∀ d ∈ n.fraction, d < 10) {rest : List Symbol}
    (h : Ends rest) : Scans (Numeral.chars n) [.number n] rest := by
  have hread (negative : Bool) := numeral?_chars hn h negative
  have hchars : Numeral.chars n = (if n.negative then ['-'] else []) ++ (Decimal.chars n.whole ++
      ((if n.fraction.isEmpty then [] else '.' :: n.fraction.map Decimal.char) ++
        exponentChars n.exponent)) := by
    unfold Numeral.chars
    cases n.exponent <;> simp [exponentChars]
  rw [hchars]
  by_cases hneg : n.negative
  · rw [if_pos hneg, List.singleton_append]
    apply Scans.one rfl
    simp only [Token.starting?, hread, Option.map_some]
    rw [← hneg]
  · cases hwhole : Decimal.chars n.whole with
    | nil => exact absurd hwhole (Decimal.chars_ne_nil n.whole)
    | cons c cs =>
      obtain ⟨d, hd, hc⟩ := List.mem_map.1 (hwhole ▸ .head cs : c ∈ Decimal.chars n.whole)
      have hlt := Decimal.digits_lt hd
      subst hc
      have hfalse := hread false
      rw [hwhole, List.cons_append, List.map_cons, List.cons_append] at hfalse
      rw [if_neg hneg, List.nil_append, List.cons_append]
      apply Scans.one (isSpace_digit hlt)
      rw [starting?_digit hlt, hfalse]
      simp [← eq_false_of_ne_true hneg]

/-! #### Values -/

theorem ends_cons {c : Char} {rest : List Symbol} (h : c = ',' ∨ c = ']' ∨ c = '\x7d') :
    Ends (some c :: rest) := by
  intro s hs
  cases hs
  simpa using h

theorem ends_itemChars (items : List Json) (rest : List Symbol) :
    Ends ((itemChars items).map some ++ rest) := by
  cases items <;> rw [itemChars] <;> exact ends_cons (by decide)

theorem ends_memberChars (members : List (Option String × Json)) (rest : List Symbol) :
    Ends ((memberChars members).map some ++ rest) := by
  cases members <;> rw [memberChars] <;> exact ends_cons (by decide)

theorem scans_itemChars {items : List Json} (rest : List Symbol)
    (h : ∀ item ∈ items, ∀ {rest}, Ends rest → Scans (chars item) (tokens item) rest) :
    Scans (itemChars items) (itemTokens items) rest := by
  induction items with
  | nil => exact Scans.one rfl rfl
  | cons item items ih =>
    have hitem := h item (.head _) (ends_itemChars items rest)
    have hitems := ih fun item hm => h item (.tail _ hm)
    rw [itemChars, itemTokens]
    exact Scans.cons rfl rfl (hitem.append hitems)

theorem scans_member {value : Json} (key : String) {rest : List Symbol}
    (h : Scans (chars value) (tokens value) rest) :
    Scans (keyChars (some key) ++ ':' :: chars value)
      (.text (some key) :: .colon :: tokens value) rest :=
  (scans_string key _).append (Scans.cons rfl rfl h)

theorem scans_memberChars {members : List (Option String × Json)} (rest : List Symbol)
    (keys : ∀ m ∈ members, m.1.isSome)
    (h : ∀ m ∈ members, ∀ {rest}, Ends rest → Scans (chars m.2) (tokens m.2) rest) :
    Scans (memberChars members) (memberTokens members) rest := by
  induction members with
  | nil => exact Scans.one rfl rfl
  | cons m members ih =>
    obtain ⟨key, value⟩ := m
    obtain ⟨key, rfl⟩ := Option.isSome_iff_exists.1 (keys _ (.head _))
    have hvalue := h _ (.head _) (ends_memberChars members rest)
    have hmembers := ih (fun m hm => keys m (.tail _ hm)) fun m hm => h m (.tail _ hm)
    rw [memberChars, memberTokens]
    exact Scans.cons rfl rfl ((scans_member key hvalue).append hmembers)

/-- The characters of a value are scanned to its tokens. -/
theorem scans_chars {j : Json} (hj : Writable j) {rest : List Symbol} (h : Ends rest) :
    Scans (chars j) (tokens j) rest := by
  induction hj generalizing rest with
  | null => exact Scans.one rfl rfl
  | bool b => cases b <;> exact Scans.one rfl rfl
  | number places => exact scans_numeral places h
  | text s => exact scans_string s rest
  | @array items values ih =>
    cases items with
    | nil => exact Scans.cons rfl rfl (Scans.one rfl rfl)
    | cons item items =>
      have hitem := ih item (.head _) (ends_itemChars items rest)
      have hitems := scans_itemChars rest fun item hm => ih item (.tail _ hm)
      rw [chars, tokens]
      exact Scans.cons rfl rfl (hitem.append hitems)
  | @object members keys values ih =>
    cases members with
    | nil => exact Scans.cons rfl rfl (Scans.one rfl rfl)
    | cons m members =>
      obtain ⟨key, value⟩ := m
      obtain ⟨key, rfl⟩ := Option.isSome_iff_exists.1 (keys _ (.head _))
      have hvalue := ih _ (.head _) (ends_memberChars members rest)
      have hmembers := scans_memberChars rest (fun m hm => keys m (.tail _ hm))
        fun m hm => ih m (.tail _ hm)
      rw [chars, tokens]
      exact Scans.cons rfl rfl ((scans_member key hvalue).append hmembers)

theorem tokens?_chars {j : Json} (hj : Writable j) :
    tokens? ((chars j).map some) = some (tokens j) := by
  have hends : Ends [] := fun _ h => by cases h
  have hscan := scans_chars hj hends
  obtain ⟨extra, hextra⟩ := Nat.exists_eq_add_of_le hscan.length_le
  have honto := hscan.onto [] extra
  rw [List.append_nil, ← hextra] at honto
  rw [tokens?, List.length_map, honto]
  cases extra <;> simp [tokensOnto?]

/-! ### Values from tokens -/

/-- Whether the tokens of a value are read as that value, whatever follows. -/
def Reads (j : Json) : Prop :=
  ∀ fuel rest, (tokens j).length ≤ fuel → value? fuel (tokens j ++ rest) = some (j, rest)

theorem tokens_ne_close (j : Json) (rest rest' : List Token) :
    tokens j ++ rest ≠ .closeArray :: rest' := by
  match j with
  | .null => simp [tokens]
  | .bool _ => simp [tokens]
  | .number _ => simp [tokens]
  | .text _ => simp [tokens]
  | .brokenText => simp [tokens]
  | .array [] => simp [tokens]
  | .array (_ :: _) => simp [tokens]
  | .object [] => simp [tokens]
  | .object (_ :: _) => simp [tokens]

theorem items?_tokens (item : Json) {items : List Json} (read : List Json) (fuel : Nat)
    (rest : List Token) (hitem : Reads item) (hitems : ∀ item ∈ items, Reads item)
    (hfuel : (tokens item ++ itemTokens items).length ≤ fuel) :
    items? fuel read (tokens item ++ (itemTokens items ++ rest)) =
      some (.array (read.reverse ++ item :: items), rest) := by
  induction items generalizing item read fuel with
  | nil =>
    simp only [itemTokens, List.length_append, List.length_singleton] at hfuel
    obtain ⟨fuel, rfl⟩ := Nat.exists_eq_add_of_le' (show 1 ≤ fuel by omega)
    rw [items?, hitem fuel _ (by omega)]
    simp [itemTokens]
  | cons next items ih =>
    simp only [itemTokens, List.cons_append, List.length_append, List.length_cons] at hfuel
    obtain ⟨fuel, rfl⟩ := Nat.exists_eq_add_of_le' (show 1 ≤ fuel by omega)
    have hrest := ih next (item :: read) fuel (hitems next (.head _))
      (fun item hm => hitems item (.tail _ hm))
      (by simp only [List.length_append]; omega)
    rw [items?, hitem fuel _ (by omega)]
    simp only [itemTokens, List.cons_append, List.append_assoc]
    rw [hrest]
    simp

theorem members?_tokens (key : Option String) (value : Json)
    {members : List (Option String × Json)} (read : List (Option String × Json)) (fuel : Nat)
    (rest : List Token) (hvalue : Reads value) (hmembers : ∀ m ∈ members, Reads m.2)
    (hfuel : (tokens value ++ memberTokens members).length ≤ fuel) :
    members? fuel read (.text key :: .colon :: (tokens value ++ (memberTokens members ++ rest))) =
      some (.object (read.reverse ++ (key, value) :: members), rest) := by
  induction members generalizing key value read fuel with
  | nil =>
    simp only [memberTokens, List.length_append, List.length_singleton] at hfuel
    obtain ⟨fuel, rfl⟩ := Nat.exists_eq_add_of_le' (show 1 ≤ fuel by omega)
    simp only [members?]
    rw [hvalue fuel _ (by omega)]
    simp [memberTokens]
  | cons m members ih =>
    obtain ⟨next, nextValue⟩ := m
    simp only [memberTokens, List.cons_append, List.length_append, List.length_cons] at hfuel
    obtain ⟨fuel, rfl⟩ := Nat.exists_eq_add_of_le' (show 1 ≤ fuel by omega)
    have hrest := ih next nextValue ((key, value) :: read) fuel (hmembers _ (.head _))
      (fun m hm => hmembers m (.tail _ hm))
      (by simp only [List.length_append]; omega)
    simp only [members?]
    rw [hvalue fuel _ (by omega)]
    simp only [memberTokens, List.cons_append, List.append_assoc]
    rw [hrest]
    simp

theorem reads_of_writable {j : Json} (hj : Writable j) : Reads j := by
  induction hj with
  | null | bool | number | text =>
    intro fuel rest hfuel
    obtain ⟨fuel, rfl⟩ := Nat.exists_eq_add_of_le' (show 1 ≤ fuel by simpa [tokens] using hfuel)
    rfl
  | @array items values ih =>
    intro fuel rest hfuel
    cases items with
    | nil =>
      obtain ⟨fuel, rfl⟩ := Nat.exists_eq_add_of_le' (show 2 ≤ fuel by simpa [tokens] using hfuel)
      rfl
    | cons item items =>
      simp only [tokens, List.cons_append, List.length_cons] at hfuel
      obtain ⟨fuel, rfl⟩ := Nat.exists_eq_add_of_le' (show 1 ≤ fuel by omega)
      have hitems := items?_tokens item [] fuel rest (ih item (.head _))
        (fun item hm => ih item (.tail _ hm)) (by omega)
      simp only [tokens, List.cons_append, List.append_assoc]
      rw [value?, hitems]
      · simp
      · exact tokens_ne_close item _
  | @object members keys values ih =>
    intro fuel rest hfuel
    cases members with
    | nil =>
      obtain ⟨fuel, rfl⟩ := Nat.exists_eq_add_of_le' (show 2 ≤ fuel by simpa [tokens] using hfuel)
      rfl
    | cons m members =>
      obtain ⟨key, value⟩ := m
      simp only [tokens, List.cons_append, List.length_cons] at hfuel
      obtain ⟨fuel, rfl⟩ := Nat.exists_eq_add_of_le' (show 1 ≤ fuel by omega)
      have hmembers := members?_tokens key value [] fuel rest (ih _ (.head _))
        (fun m hm => ih m (.tail _ hm)) (by omega)
      simp only [tokens, List.cons_append, List.append_assoc]
      rw [value?, hmembers]
      · simp
      · intro rest' h
        cases h

/-- A written document is read as the value that was written. -/
theorem ofText?_print {j : Json} (hj : Writable j) : ofText? (print j) = some j := by
  have hread := reads_of_writable hj ((tokens j).length + 1) [] (by omega)
  rw [List.append_nil] at hread
  rw [ofText?, print, String.toList_ofList, ofSymbols?, tokens?_chars hj, Option.bind_some,
    ofTokens?, hread]

end Json

end Proctor
