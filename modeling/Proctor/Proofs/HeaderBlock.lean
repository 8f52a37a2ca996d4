import Mathlib.Algebra.Group.Nat.Defs
import Proctor.Archive.Header
import Proctor.Proofs.Trimming
import Proctor.Proofs.Utf8

/-!
Header blocks read back. A number is in its field in octal or in base 256, a name has zeros behind it, and
the checksum is over everything else; so a block gives the name, the size and the kind that it was made of.
-/

namespace Proctor.Archive

theorem length_digitsIn (base count n : Nat) : (digitsIn base count n).length = count := by
  induction count generalizing n with
  | zero => rfl
  | succ count ih => rw [digitsIn, List.length_append, ih, List.length_singleton]

theorem digitsIn_lt {base count n d : Nat} (hbase : 0 < base) (h : d ∈ digitsIn base count n) :
    d < base := by
  induction count generalizing n with
  | zero => cases h
  | succ count ih =>
    rcases List.mem_append.1 h with h | h
    · exact ih h
    · rw [List.mem_singleton.1 h]
      exact Nat.mod_lt n hbase

/-- The last digits of a number are the number up to the power that they reach. -/
theorem foldl_digitsIn (base count n : Nat) :
    (digitsIn base count n).foldl (fun n d => base * n + d) 0 = n % base ^ count := by
  induction count generalizing n with
  | zero => rw [Nat.pow_zero, Nat.mod_one]; rfl
  | succ count ih =>
    rw [digitsIn, List.foldl_append, ih, List.foldl_cons, List.foldl_nil, Nat.pow_succ',
      Nat.mod_mul, Nat.add_comm]

/-! ### Numbers in fields -/

theorem octalDigit?_char {d : Nat} (h : d < 8) : octalDigit? (Decimal.char d) = some d := by
  have all : ∀ d < 8, octalDigit? (Decimal.char d) = some d := by decide
  exact all d h

theorem char_shown {d : Nat} (h : d < 8) :
    Decimal.char d ≠ '+' ∧ Text.isBlank (Decimal.char d) = false := by
  have all : ∀ d < 8, Decimal.char d ≠ '+' ∧ Text.isBlank (Decimal.char d) = false := by decide
  exact all d h

theorem encodeChar_char {d : Nat} (h : d < 8) :
    Utf8.encodeChar (Decimal.char d) = [UInt8.ofNat (48 + d)] := by
  have all : ∀ d < 8, Utf8.encodeChar (Decimal.char d) = [UInt8.ofNat (48 + d)] := by decide
  exact all d h

theorem octalByte_ne_zero {d : Nat} (h : d < 8) : UInt8.ofNat (48 + d) ≠ 0 := by
  have all : ∀ d < 8, UInt8.ofNat (48 + d) ≠ 0 := by decide
  exact all d h

theorem encode_chars {ds : List Nat} (h : ∀ d ∈ ds, d < 8) :
    Utf8.encode (String.ofList (ds.map Decimal.char)) = ds.map fun d => UInt8.ofNat (48 + d) := by
  induction ds with
  | nil => rfl
  | cons d ds ih =>
    have ih := ih fun e he => h e (.tail _ he)
    rw [Utf8.encode_ofList] at ih ⊢
    rw [List.map_cons, List.flatMap_cons, ih, encodeChar_char (h d (.head _))]
    rfl

theorem mapM_octalDigit? {ds : List Nat} (h : ∀ d ∈ ds, d < 8) :
    (ds.map Decimal.char).mapM octalDigit? = some ds := by
  induction ds with
  | nil => rfl
  | cons d ds ih =>
    rw [List.map_cons, List.mapM_cons, octalDigit?_char (h d (.head _)),
      ih fun e he => h e (.tail _ he)]
    rfl

/-- Octal digits are read as their number if that has at most 64 bits. -/
theorem octal?_chars {ds : List Nat} (hds : ∀ d ∈ ds, d < 8) (hne : ds ≠ [])
    (hlt : ds.foldl (fun n d => 8 * n + d) 0 < 2 ^ 64) :
    octal? (ds.map Decimal.char) = some (ds.foldl (fun n d => 8 * n + d) 0) := by
  have hread := mapM_octalDigit? hds
  cases ds with
  | nil => exact absurd rfl hne
  | cons d ds =>
    have hplus := (char_shown (hds d (.head _))).1
    rw [List.map_cons] at hread ⊢
    unfold octal?
    split
    · rename_i heq
      exact absurd (List.cons.inj heq).1 hplus
    · simp only [hread]
      exact if_pos ⟨hne, hlt⟩

/-- A name without zeros ends where the zeros behind it start. -/
theorem untilZero_append {bs : Bytes} (h : 0 ∉ bs) (count : Nat) :
    untilZero (bs ++ List.replicate count 0) = bs := by
  have hbs : ∀ b ∈ bs, decide (b ≠ 0) = true := by
    intro b hb
    exact decide_eq_true fun hzero => h (hzero ▸ hb)
  rw [untilZero, List.takeWhile_append_of_pos hbs]
  cases count <;> simp [List.replicate_succ]

theorem zero_not_mem_octalBytes {ds : List Nat} (h : ∀ d ∈ ds, d < 8) :
    (0 : UInt8) ∉ ds.map fun d => UInt8.ofNat (48 + d) := by
  intro hmem
  obtain ⟨d, hd, hzero⟩ := List.mem_map.1 hmem
  exact octalByte_ne_zero (h d hd) hzero

/-- A number is read back from an octal field that has room for it. -/
theorem readOctal_octalField (field : String) (width : Nat) {n : Nat} (hwidth : 2 ≤ width)
    (hn : n < 8 ^ (width - 1)) (hlt : n < 2 ^ 64) :
    readOctal field (octalField width n) = .ok n := by
  have hds : ∀ d ∈ digitsIn 8 (width - 1) n, d < 8 := fun d => digitsIn_lt (by decide)
  have hne : digitsIn 8 (width - 1) n ≠ [] := by
    intro h
    have hlength := length_digitsIn 8 (width - 1) n
    rw [h, List.length_nil] at hlength
    omega
  have hvalue : (digitsIn 8 (width - 1) n).foldl (fun n d => 8 * n + d) 0 = n := by
    rw [foldl_digitsIn, Nat.mod_eq_of_lt hn]
  have hshown : ∀ c ∈ (digitsIn 8 (width - 1) n).map Decimal.char, Text.isBlank c = false := by
    intro c hc
    obtain ⟨d, hd, rfl⟩ := List.mem_map.1 hc
    exact (char_shown (hds d hd)).2
  have huntil : untilZero (octalField width n) =
      Utf8.encode (String.ofList ((digitsIn 8 (width - 1) n).map Decimal.char)) := by
    rw [encode_chars hds]
    exact untilZero_append (zero_not_mem_octalBytes hds) 1
  have hread := octal?_chars hds hne (by rw [hvalue]; exact hlt)
  rw [hvalue] at hread
  rw [readOctal, huntil]
  simp only [Utf8.decode?_encode, String.toList_ofList, Text.trimChars_of_shown hshown, hread]

theorem length_octalField (width n : Nat) (h : 1 ≤ width) :
    (octalField width n).length = width := by
  rw [octalField, List.length_append, List.length_map, length_digitsIn, List.length_singleton]
  omega

/-- The eight bytes of a number in base 256 behind zeros. -/
theorem exists_extendedField (width n : Nat) :
    ∃ b rest, extendedField width n = (b ||| 0x80) :: rest ∧
      b :: rest = List.replicate (width - 8) 0 ++ (digitsIn 256 8 n).map UInt8.ofNat := by
  unfold extendedField
  split
  · rename_i hnil
    have hlength := congrArg List.length hnil
    simp [length_digitsIn] at hlength
  · rename_i b rest heq
    exact ⟨b, rest, rfl, heq.symm⟩

theorem length_extendedField (width n : Nat) (h : 8 ≤ width) :
    (extendedField width n).length = width := by
  obtain ⟨b, rest, hfield, hrest⟩ := exists_extendedField width n
  have hlength := congrArg List.length hrest
  rw [List.length_append, List.length_replicate, List.length_map, length_digitsIn] at hlength
  rw [hfield, List.length_cons]
  rw [List.length_cons] at hlength
  omega

theorem length_numberField (width n : Nat) (h : 8 ≤ width) :
    (numberField width n).length = width := by
  unfold numberField
  split
  · exact length_extendedField width n h
  · exact length_octalField width n (by omega)

theorem foldl_bytes {ds : List Nat} (h : ∀ d ∈ ds, d < 256) (n : Nat) :
    (ds.map UInt8.ofNat).foldl (fun n d => n * 256 + d.toNat) n =
      ds.foldl (fun n d => 256 * n + d) n := by
  induction ds generalizing n with
  | nil => rfl
  | cons d ds ih =>
    rw [List.map_cons, List.foldl_cons, List.foldl_cons, ih fun e he => h e (.tail _ he),
      Utf8.toNat_ofNat (h d (.head _)), Nat.mul_comm]

/-- A number of 64 bits is read back from a field of twelve bytes. -/
theorem numberValue_numberField (field : String) (block : Bytes) {n : Nat} (hn : n < 2 ^ 64) :
    numberValue field block (numberField 12 n) = .ok n := by
  unfold numberField
  split
  · -- four zeros come before the number, so the mark of base 256 covers no digit
    have hfield : extendedField 12 n = 0x80 :: 0 :: 0 :: 0 :: (digitsIn 256 8 n).map UInt8.ofNat := rfl
    have hlength := length_extendedField 12 n (by decide)
    have hds : ∀ d ∈ digitsIn 256 8 n, d < 256 := fun d => digitsIn_lt (by decide)
    rw [hfield] at hlength
    simp only [hfield, numberValue, hlength]
    rw [if_pos (by decide)]
    simp only [List.drop_succ_cons, List.drop_zero]
    rw [foldl_bytes hds, foldl_digitsIn, Nat.mod_eq_of_lt (by omega)]
  · rename_i hsmall
    have hread := readOctal_octalField s!"{field} for {Utf8.decodeLossy (blockPath block)}"
      12 (by decide) (Nat.lt_of_not_le fun hle => hsmall (.inl hle)) hn
    have hds : ∀ d ∈ digitsIn 8 11 n, d < 8 := fun d => digitsIn_lt (by decide)
    have hfirst : ∃ d rest, d < 8 ∧ octalField 12 n = UInt8.ofNat (48 + d) :: rest := by
      have hlength := length_digitsIn 8 11 n
      unfold octalField
      cases hdigits : digitsIn 8 11 n with
      | nil => simp [hdigits] at hlength
      | cons d ds => exact ⟨d, _, hds d (by rw [hdigits]; exact .head _), rfl⟩
    obtain ⟨d, rest, hd, hfield⟩ := hfirst
    have hlow : ¬(0x80 ≤ UInt8.ofNat (48 + d)) := by
      have all : ∀ d < 8, ¬(0x80 ≤ UInt8.ofNat (48 + d)) := by decide
      exact all d hd
    rw [hfield] at hread ⊢
    rw [numberValue, if_neg hlow]
    exact hread

/-! ### Blocks -/

theorem slice_append {before part : Bytes} {first count : Nat} (hfirst : before.length = first)
    (hcount : part.length = count) (after : Bytes) :
    slice first count (before ++ (part ++ after)) = part := by
  subst hfirst hcount
  rw [slice, List.drop_left, List.take_left]

theorem length_zeroFilled {width : Nat} {bs : Bytes} (h : bs.length ≤ width) :
    (zeroFilled width bs).length = width := by
  rw [zeroFilled, List.length_append, List.length_replicate]
  omega

/-- The sum of a block is far below what the checksum field holds. -/
theorem byteSum_le (bs : Bytes) : byteSum bs ≤ 255 * bs.length := by
  have onto (n : Nat) : bs.foldl (fun n b => n + b.toNat) n ≤ n + 255 * bs.length := by
    induction bs generalizing n with
    | nil => exact Nat.le_refl n
    | cons b bs ih =>
      have hb : b.toNat < 256 := b.toNat_lt
      have hrest := ih (n + b.toNat)
      rw [List.foldl_cons, List.length_cons]
      omega
  have hsum := onto 0
  rw [Nat.zero_add] at hsum
  exact hsum

namespace Header

/-- The mark of the older common form. -/
def mark : Bytes :=
  Utf8.encode "ustar  " ++ [0]

theorem length_back (h : Header) : h.back.length = 356 := by
  have hmark : (Utf8.encode "ustar  ").length = 7 := by decide
  apply length_zeroFilled
  simp [hmark]

variable {h : Header} (hname : h.name.length ≤ nameSize)

include hname

theorem length_front : h.front.length = 148 := by
  simp only [front, List.length_append, length_zeroFilled hname, length_octalField 8 _ (by decide),
    length_numberField 8 _ (by decide), length_numberField 12 _ (by decide)]
  rfl

/-- A checksum has at most seven octal digits. -/
theorem checksum_lt : checksum h.front h.back < 8 ^ 7 := by
  have hfront := byteSum_le h.front
  have hback := byteSum_le h.back
  rw [length_front hname] at hfront
  rw [length_back] at hback
  rw [checksum]
  omega

theorem length_block : h.block.length = blockSize := by
  simp only [block, List.length_append, length_front hname, length_octalField 8 _ (by decide),
    length_back, blockSize]

theorem take_block : h.block.take 148 = h.front := by
  rw [block, List.append_assoc]
  exact List.take_left' (length_front hname)

theorem drop_block : h.block.drop 156 = h.back := by
  rw [block]
  apply List.drop_left'
  rw [List.length_append, length_front hname, length_octalField 8 _ (by decide)]

theorem slice_checksum :
    slice 148 8 h.block = octalField 8 (checksum h.front h.back) := by
  rw [block, List.append_assoc]
  exact slice_append (length_front hname) (length_octalField 8 _ (by decide)) _

theorem slice_name : slice 0 nameSize h.block = zeroFilled nameSize h.name := by
  have hblock : h.block = [] ++ (zeroFilled nameSize h.name ++ (octalField 8 h.mode ++
      numberField 8 h.uid ++ numberField 8 h.gid ++ numberField 12 h.size ++
      numberField 12 h.mtime ++ octalField 8 (checksum h.front h.back) ++ h.back)) := by
    simp only [block, front, List.nil_append, List.append_assoc]
  rw [hblock]
  exact slice_append List.length_nil (length_zeroFilled hname) _

theorem slice_size : slice 124 12 h.block = numberField 12 h.size := by
  have hbefore : (zeroFilled nameSize h.name ++ octalField 8 h.mode ++ numberField 8 h.uid ++
      numberField 8 h.gid).length = 124 := by
    simp only [List.length_append, length_zeroFilled hname, length_octalField 8 _ (by decide),
      length_numberField 8 _ (by decide)]
    rfl
  have hblock : h.block = (zeroFilled nameSize h.name ++ octalField 8 h.mode ++ numberField 8 h.uid ++
      numberField 8 h.gid) ++ (numberField 12 h.size ++
      (numberField 12 h.mtime ++ octalField 8 (checksum h.front h.back) ++ h.back)) := by
    simp only [block, front, List.append_assoc]
  rw [hblock]
  exact slice_append hbefore (length_numberField 12 h.size (by decide)) _

theorem slice_mark : slice 257 8 h.block = mark := by
  have hbefore : (h.front ++ octalField 8 (checksum h.front h.back) ++
      h.kind :: List.replicate 100 0).length = 257 := by
    simp only [List.length_append, length_front hname, length_octalField 8 _ (by decide),
      List.length_cons, List.length_replicate]
  have hblock : h.block = (h.front ++ octalField 8 (checksum h.front h.back) ++
      h.kind :: List.replicate 100 0) ++ (mark ++ List.replicate (356 -
        (h.kind :: List.replicate 100 0 ++ Utf8.encode "ustar  " ++ [0]).length) 0) := by
    simp only [block, back, zeroFilled, mark, List.append_assoc, List.cons_append]
  rw [hblock]
  exact slice_append hbefore (by decide) _

theorem isGnu_block : isGnu h.block = true := by
  rw [isGnu, slice_mark hname, mark]
  exact decide_eq_true rfl

theorem isUstar_block : isUstar h.block = false := by
  rw [isUstar, slice_mark hname]
  decide

theorem kind_block : h.block[156]? = some h.kind := by
  rw [← List.head?_drop, drop_block hname]
  rfl

/-- No block is taken for the end of an archive. -/
theorem block_not_zero : h.block.all (· == 0) = false := by
  have hmark : (117 : UInt8) ∈ slice 257 8 h.block := by
    rw [slice_mark hname]
    decide
  apply List.all_eq_false.2
  exact ⟨117, List.mem_of_mem_drop (List.mem_of_mem_take hmark), by decide⟩

/-- The path of a block is its name: the older form has no prefix field. -/
theorem blockPath_block (hzero : 0 ∉ h.name) : blockPath h.block = h.name := by
  have hpath : untilZero (slice 0 nameSize h.block) = h.name := by
    rw [slice_name hname, zeroFilled]
    exact untilZero_append hzero _
  simp only [blockPath, hpath, isUstar_block hname, Bool.false_eq_true, false_and, if_false]

/-- A block of a header gives the name, the size and the kind that it was made of. -/
theorem ofBlock_block (hzero : 0 ∉ h.name) (hsize : h.size < 2 ^ 64) :
    ∃ read, ofBlock h.block = .ok read ∧ read.name = h.name ∧ read.size = h.size ∧
      read.kind = h.kind := by
  have hchecksum := checksum_lt hname
  have hsum : octalValue "cksum" h.block (slice 148 8 h.block) =
      .ok (checksum (h.block.take 148) (h.block.drop 156)) := by
    rw [slice_checksum hname, take_block hname, drop_block hname]
    exact readOctal_octalField _ 8 (by decide) hchecksum (by omega)
  have hvalue : numberValue "size" h.block (slice 124 12 h.block) = .ok h.size := by
    rw [slice_size hname]
    exact numberValue_numberField _ _ hsize
  rw [take_block hname, drop_block hname] at hsum
  unfold ofBlock
  rw [hsum]
  simp only [bind, Except.bind, hvalue, take_block hname, drop_block hname,
    Nat.mod_eq_of_lt (Nat.lt_trans hchecksum (by decide : 8 ^ 7 < UInt32.size)), ne_eq, not_true_eq_false,
    if_false]
  exact ⟨_, rfl, blockPath_block hname hzero, rfl, by rw [kind_block hname]; rfl⟩

end Header

end Proctor.Archive
