/-!
Byte strings and the UTF-8 form of text. `Utf8.scan` reads any bytes; a piece that is no character
becomes one gap, so the strict and the forgiving readers differ only in what they do with gaps.
-/

namespace Proctor

abbrev Bytes := List UInt8

namespace Utf8

/-- The bytes of one character, the leading byte first. -/
def encodeChar (c : Char) : Bytes :=
  let n := c.toNat
  if n < 0x80 then
    [UInt8.ofNat n]
  else if n < 0x800 then
    [UInt8.ofNat (0xC0 + n / 64), UInt8.ofNat (0x80 + n % 64)]
  else if n < 0x10000 then
    [UInt8.ofNat (0xE0 + n / 4096), UInt8.ofNat (0x80 + n / 64 % 64), UInt8.ofNat (0x80 + n % 64)]
  else
    [UInt8.ofNat (0xF0 + n / 262144), UInt8.ofNat (0x80 + n / 4096 % 64),
      UInt8.ofNat (0x80 + n / 64 % 64), UInt8.ofNat (0x80 + n % 64)]

def encode (s : String) : Bytes :=
  s.toList.flatMap encodeChar

/-- Between characters, or inside one that still wants `owed + 1` bytes, the next of them within
`low` and `high`. -/
inductive State
  | start
  | inside (owed code low high : Nat)
  deriving DecidableEq, Repr

/-- The first byte of a character fixes how many follow and which second bytes are allowed: no
overlong form, no surrogate, nothing beyond the last code point. `none` for a byte that starts no
character. -/
def leading (b : Nat) : Option (Option Char × State) :=
  if b < 0x80 then some (some (Char.ofNat b), .start)
  else if b < 0xC2 then none
  else if b < 0xE0 then some (none, .inside 0 (b - 0xC0) 0x80 0xBF)
  else if b = 0xE0 then some (none, .inside 1 0 0xA0 0xBF)
  else if b = 0xED then some (none, .inside 1 0xD 0x80 0x9F)
  else if b < 0xF0 then some (none, .inside 1 (b - 0xE0) 0x80 0xBF)
  else if b = 0xF0 then some (none, .inside 2 0 0x90 0xBF)
  else if b < 0xF4 then some (none, .inside 2 (b - 0xF0) 0x80 0xBF)
  else if b = 0xF4 then some (none, .inside 2 4 0x80 0x8F)
  else none

/-- Reads a byte between characters. -/
def begin (b : Nat) : List (Option Char) × State :=
  match leading b with
  | some (some c, state) => ([some c], state)
  | some (none, state) => ([], state)
  | none => ([none], .start)

/-- Reads one byte. A byte that cannot continue the open character leaves a gap for what was read
of it and is then read as a first byte. -/
def State.feed : State → UInt8 → List (Option Char) × State
  | .start, b => begin b.toNat
  | .inside owed code low high, b =>
    if low ≤ b.toNat ∧ b.toNat ≤ high then
      let code := code * 64 + (b.toNat - 0x80)
      match owed with
      | 0 => ([some (Char.ofNat code)], .start)
      | owed + 1 => ([], .inside owed code 0x80 0xBF)
    else
      let (pieces, state) := begin b.toNat
      (none :: pieces, state)

/-- Pieces read so far, the latest first, and the state after them. -/
def feedAll : List (Option Char) → State → Bytes → List (Option Char) × State
  | read, state, [] => (read, state)
  | read, state, b :: bs =>
    let (pieces, state) := state.feed b
    feedAll (pieces.reverse ++ read) state bs

/-- Characters in order, `none` where bytes form none. -/
def scan (bs : Bytes) : List (Option Char) :=
  match feedAll [] .start bs with
  | (read, .start) => read.reverse
  | (read, .inside ..) => (none :: read).reverse

/-- Every gap in a scan makes the text unreadable. -/
def sequence (pieces : List (Option Char)) : Option (List Char) :=
  if pieces.all Option.isSome then some (pieces.filterMap id) else none

def decode? (bs : Bytes) : Option String :=
  (sequence (scan bs)).map String.ofList

/-- Reads any bytes, with U+FFFD in the place of every gap. -/
def decodeLossy (bs : Bytes) : String :=
  String.ofList ((scan bs).map (·.getD '\uFFFD'))

/-- Whether more bytes could still make this a text. -/
def isOpenText (bs : Bytes) : Bool :=
  (feedAll [] .start bs).1.all Option.isSome

def length (s : String) : Nat :=
  s.utf8ByteSize

end Utf8

end Proctor
