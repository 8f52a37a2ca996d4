import Proctor.Bytes

/-!
The standard base64 alphabet with padding. Reading is strict: the one accepted text for some bytes
is the text that writing gives.
-/

namespace Proctor.Base64

/-- The character for a value below 64. -/
def symbol (n : Nat) : Char :=
  if n < 26 then Char.ofNat (65 + n)
  else if n < 52 then Char.ofNat (71 + n)
  else if n < 62 then Char.ofNat (n - 4)
  else if n = 62 then '+'
  else '/'

def value? (c : Char) : Option Nat :=
  let n := c.toNat
  if 65 ≤ n ∧ n ≤ 90 then some (n - 65)
  else if 97 ≤ n ∧ n ≤ 122 then some (n - 71)
  else if 48 ≤ n ∧ n ≤ 57 then some (n + 4)
  else if c = '+' then some 62
  else if c = '/' then some 63
  else none

/-- Characters for one to three bytes; the unused bits of the last character are zero. -/
def group : Bytes → List Char
  | [] => []
  | [a] =>
    let n := a.toNat
    [symbol (n / 4), symbol (n % 4 * 16), '=', '=']
  | [a, b] =>
    let n := a.toNat * 256 + b.toNat
    [symbol (n / 1024), symbol (n / 16 % 64), symbol (n % 16 * 4), '=']
  | a :: b :: c :: _ =>
    let n := a.toNat * 65536 + b.toNat * 256 + c.toNat
    [symbol (n / 262144), symbol (n / 4096 % 64), symbol (n / 64 % 64), symbol (n % 64)]

/-- Writes the groups after `done`, which holds the characters before them in reverse. -/
def charsOnto (done : List Char) : Bytes → List Char
  | a :: b :: c :: rest => charsOnto ((group [a, b, c]).reverse ++ done) rest
  | rest => ((group rest).reverse ++ done).reverse

def chars (bs : Bytes) : List Char :=
  charsOnto [] bs

def encode (bs : Bytes) : String :=
  String.ofList (chars bs)

/-- Three bytes of four values. -/
def threeBytes (a b c d : Nat) : Bytes :=
  let n := a * 262144 + b * 4096 + c * 64 + d
  [UInt8.ofNat (n / 65536), UInt8.ofNat (n / 256), UInt8.ofNat n]

/-- Reads after `done`, which holds the bytes before in reverse. The text must end at a group, only
the last group may be padded, and the bits that padding leaves unused must be zero. -/
def bytesOnto? (done : Bytes) : List Char → Option Bytes
  | [] => some done.reverse
  | [a, b, '=', '='] => do
    let a ← value? a
    let b ← value? b
    if b % 16 = 0 then some (((threeBytes a b 0 0).take 1).reverse ++ done).reverse else none
  | [a, b, c, '='] => do
    let a ← value? a
    let b ← value? b
    let c ← value? c
    if c % 4 = 0 then some (((threeBytes a b c 0).take 2).reverse ++ done).reverse else none
  | a :: b :: c :: d :: rest => do
    let a ← value? a
    let b ← value? b
    let c ← value? c
    let d ← value? d
    bytesOnto? ((threeBytes a b c d).reverse ++ done) rest
  | _ => none

def decodeChars? (cs : List Char) : Option Bytes :=
  bytesOnto? [] cs

def decode? (s : String) : Option Bytes :=
  decodeChars? s.toList

end Proctor.Base64
