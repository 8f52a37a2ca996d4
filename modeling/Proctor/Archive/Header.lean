import Proctor.Archive.Path
import Proctor.Decimal
import Proctor.Text.Blank

/-!
Headers of archive members: blocks of 512 bytes with a name, octal numbers and a checksum over all
other bytes. A number that does not fit in its octal field is written in base 256.
-/

namespace Proctor.Archive

def blockSize : Nat := 512

/-- The kind of a member as the letter in its header. -/
abbrev Kind := UInt8

namespace Kind

def file : Kind := 48
def oldFile : Kind := 0
def directory : Kind := 53
def longName : Kind := 76
def longLink : Kind := 75
def attributes : Kind := 120
def sparse : Kind := 83

end Kind

structure Header where
  name : Bytes
  mode : Nat
  uid : Nat
  gid : Nat
  size : Nat
  mtime : Nat
  kind : Kind
  deriving DecidableEq, Repr

/-- The last `count` digits of a number in a base, the most significant first. -/
def digitsIn (base : Nat) : Nat → Nat → List Nat
  | 0, _ => []
  | count + 1, n => digitsIn base count (n / base) ++ [n % base]

/-- Octal digits with a zero byte behind them. -/
def octalField (width n : Nat) : Bytes :=
  (digitsIn 8 (width - 1) n).map (fun d => UInt8.ofNat (48 + d)) ++ [0]

/-- Eight bytes in base 256, the first bit of the field set. -/
def extendedField (width n : Nat) : Bytes :=
  match List.replicate (width - 8) 0 ++ (digitsIn 256 8 n).map UInt8.ofNat with
  | [] => []
  | b :: rest => (b ||| 0x80) :: rest

def numberField (width n : Nat) : Bytes :=
  if Nat.pow 8 (width - 1) ≤ n ∨ Nat.pow 8 11 ≤ n then extendedField width n else octalField width n

def zeroFilled (width : Nat) (bs : Bytes) : Bytes :=
  bs ++ List.replicate (width - bs.length) 0

def byteSum (bs : Bytes) : Nat :=
  bs.foldl (fun n b => n + b.toNat) 0

/-- The bytes before the checksum. -/
def Header.front (h : Header) : Bytes :=
  zeroFilled nameSize h.name ++ octalField 8 h.mode ++ numberField 8 h.uid ++ numberField 8 h.gid ++
    numberField 12 h.size ++ numberField 12 h.mtime

/-- The bytes behind the checksum. -/
def Header.back (h : Header) : Bytes :=
  zeroFilled 356 (h.kind :: List.replicate 100 0 ++ Utf8.encode "ustar  " ++ [0])

/-- Sums as if the checksum itself were blank. -/
def checksum (front back : Bytes) : Nat :=
  byteSum front + 8 * 32 + byteSum back

def Header.block (h : Header) : Bytes :=
  h.front ++ octalField 8 (checksum h.front h.back) ++ h.back

/-- What is wrong with the bytes of an archive. -/
inductive Fault
  | partialBlock
  | cutShort
  | checksumMismatch
  | notText (field : String) (bytes : Bytes)
  | notANumber (field text : String)
  | sizeOverflow
  | repeatedName
  | repeatedAttributes
  | nothingDescribed
  | runsUnlisted
  | runUnaligned
  | runsOverlap
  | runTooLong
  | runsExceedData
  | runsMissing
  | wrongFileSize
  | dataExceedsRuns
  deriving DecidableEq, Repr

def Fault.message : Fault → String
  | .partialBlock => "failed to read entire block"
  | .cutShort => "unexpected EOF during skip"
  | .checksumMismatch => "archive header checksum mismatch"
  | .notText field bytes =>
    s!"numeric field did not have utf-8 text: {Utf8.decodeLossy bytes} when getting {field}"
  | .notANumber field text => s!"numeric field was not a number: {text} when getting {field}"
  | .sizeOverflow => "size overflow"
  | .repeatedName => "two long name entries describing the same member"
  | .repeatedAttributes => "two pax extensions entries describing the same member"
  | .nothingDescribed => "members found describing a future member but no future member found"
  | .runsUnlisted => "sparse entry type listed but not GNU header"
  | .runUnaligned => "previous block in sparse file was not aligned to 512-byte boundary"
  | .runsOverlap => "out of order or overlapping sparse blocks"
  | .runTooLong => "more bytes listed in sparse file than u64 can hold"
  | .runsExceedData => "sparse file consumed more data than the header listed"
  | .runsMissing => "failed to read extension"
  | .wrongFileSize => "mismatch in sparse file chunks and size in header"
  | .dataExceedsRuns => "mismatch in sparse file chunks and entry size in header"

def slice (first count : Nat) (block : Bytes) : Bytes :=
  (block.drop first).take count

/-- The bytes before the first zero. -/
def untilZero (bs : Bytes) : Bytes :=
  bs.takeWhile (· ≠ 0)

/-- Whether a block carries the mark of the older or of the newer common form. -/
def isGnu (block : Bytes) : Bool :=
  slice 257 8 block = Utf8.encode "ustar  " ++ [0]

def isUstar (block : Bytes) : Bool :=
  slice 257 8 block = Utf8.encode "ustar" ++ [0, 48, 48]

/-- The path in a block; the newer form has a second field for its front. -/
def blockPath (block : Bytes) : Bytes :=
  let name := untilZero (slice 0 nameSize block)
  let front := untilZero (slice 345 155 block)
  if isUstar block ∧ front ≠ [] then front ++ 47 :: name else name

def octalDigit? (c : Char) : Option Nat :=
  if '0' ≤ c ∧ c ≤ '7' then some (c.toNat - 48) else none

/-- An octal number of 64 bits, with at most one `+` before it. -/
def octal? (cs : List Char) : Option Nat := do
  let cs := match cs with
    | '+' :: cs => cs
    | cs => cs
  let ds ← cs.mapM octalDigit?
  let n := ds.foldl (fun n d => 8 * n + d) 0
  if ds ≠ [] ∧ n < UInt64.size then some n else none

/-- The octal number in a field, which has a description. -/
def readOctal (field : String) (bytes : Bytes) : Except Fault Nat :=
  let bytes := untilZero bytes
  match Utf8.decode? bytes with
  | none => .error (.notText field bytes)
  | some text =>
    match octal? (Text.trimChars text.toList) with
    | some n => .ok n
    | none => .error (.notANumber field text)

/-- The octal number in a named field of a block. -/
def octalValue (field : String) (block bytes : Bytes) : Except Fault Nat :=
  readOctal s!"{field} for {Utf8.decodeLossy (blockPath block)}" bytes

/-- A number whose first bit is set is in base 256, in the last eight bytes of its field. -/
def numberValue (field : String) (block bytes : Bytes) : Except Fault Nat :=
  match bytes with
  | b :: rest =>
    if 0x80 ≤ b then
      let digits := (((b ^^^ 0x80) :: rest).drop (bytes.length - 8))
      .ok (digits.foldl (fun n d => n * 256 + d.toNat) 0)
    else octalValue field block bytes
  | [] => octalValue field block bytes

/-- Reads a block whose checksum is right. -/
def Header.ofBlock (block : Bytes) : Except Fault Header := do
  let sum ← octalValue "cksum" block (slice 148 8 block)
  if sum % UInt32.size ≠ checksum (block.take 148) (block.drop 156) then .error .checksumMismatch
  else
    .ok {
      name := blockPath block
      mode := (octalValue "mode" block (slice 100 8 block)).toOption.getD 0
      uid := (numberValue "uid" block (slice 108 8 block)).toOption.getD 0
      gid := (numberValue "gid" block (slice 116 8 block)).toOption.getD 0
      size := ← numberValue "size" block (slice 124 12 block)
      mtime := (numberValue "mtime" block (slice 136 12 block)).toOption.getD 0
      kind := (block[156]?).getD 0 }

end Proctor.Archive
