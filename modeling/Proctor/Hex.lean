import Proctor.Bytes

/-!
Hexadecimal digits, lower case when written and of either case when read.
-/

namespace Proctor.Hex

def digit (n : Nat) : Char :=
  Char.ofNat (if n < 10 then 48 + n else 87 + n)

def value? (c : Char) : Option Nat :=
  let n := c.toNat
  if 48 ≤ n ∧ n ≤ 57 then some (n - 48)
  else if 97 ≤ n ∧ n ≤ 102 then some (n - 87)
  else if 65 ≤ n ∧ n ≤ 70 then some (n - 55)
  else none

/-- Digits without leading zeros, in front of `after`. -/
def charsOnto (n : Nat) (after : List Char) : List Char :=
  if n < 16 then digit n :: after else charsOnto (n / 16) (digit (n % 16) :: after)
  termination_by n

def ofByte (b : UInt8) : List Char :=
  [digit (b.toNat / 16), digit (b.toNat % 16)]

def ofBytes (bs : Bytes) : String :=
  String.ofList (bs.flatMap ofByte)

end Proctor.Hex
