import Proctor.Hex
import Proctor.Text.Unprintable

/-!
Text in double quotes, as messages show it, and bytes spelled in ASCII, as signatures cover them.
-/

namespace Proctor.Text

def quotedChar (c : Char) : List Char :=
  if c = '"' then ['\\', '"']
  else if c = '\\' then ['\\', '\\']
  else if c = '\n' then ['\\', 'n']
  else if c = '\r' then ['\\', 'r']
  else if c = '\t' then ['\\', 't']
  else if c.toNat = 0 then ['\\', '0']
  else if ' ' ≤ c ∧ c ≤ '~' then [c]
  else if isUnprintable c then ['\\', 'u', '\x7b'] ++ Hex.charsOnto c.toNat ['\x7d']
  else [c]

/-- The text in double quotes, every unprintable character spelled by its code point. -/
def quoted (s : String) : String :=
  String.ofList ('"' :: s.toList.flatMap quotedChar ++ ['"'])

def spelledByte (b : UInt8) : List Char :=
  if b = 9 then ['\\', 't']
  else if b = 13 then ['\\', 'r']
  else if b = 10 then ['\\', 'n']
  else if b = 39 then ['\\', '\'']
  else if b = 34 then ['\\', '"']
  else if b = 92 then ['\\', '\\']
  else if 0x20 ≤ b ∧ b < 0x7F then [Char.ofNat b.toNat]
  else ['\\', 'x', Hex.digit (b.toNat / 16), Hex.digit (b.toNat % 16)]

/-- Printable ASCII stands for itself; every other byte has an escape of its own. -/
def spelled (bs : List UInt8) : String :=
  String.ofList (bs.flatMap spelledByte)

end Proctor.Text
