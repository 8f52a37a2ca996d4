import Proctor.Hex

/-!
Percent escapes in addresses: a percent sign and two hexadecimal digits stand for one byte.
-/

namespace Proctor.Percent

def sign : UInt8 := 0x25

/-- The byte for two hexadecimal digits. -/
def byte? (high low : UInt8) : Option UInt8 := do
  let high ← Hex.value? (Char.ofNat high.toNat)
  let low ← Hex.value? (Char.ofNat low.toNat)
  some (UInt8.ofNat (16 * high + low))

/-- Bytes with the escapes in them replaced; a percent sign without two digits stays. -/
def decode : Bytes → Bytes
  | [] => []
  | b :: high :: low :: rest =>
    if b = sign then
      match byte? high low with
      | some decoded => decoded :: decode rest
      | none => b :: decode (high :: low :: rest)
    else b :: decode (high :: low :: rest)
  | b :: rest => b :: decode rest

def decodeText? (s : String) : Option String :=
  Utf8.decode? (decode (Utf8.encode s))

end Proctor.Percent
