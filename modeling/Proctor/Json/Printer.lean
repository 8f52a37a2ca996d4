import Proctor.Decimal
import Proctor.Hex
import Proctor.Json.Basic

/-!
Writing JSON without blanks. Strings escape only the quote, the backslash and control characters.
-/

namespace Proctor.Json

def escapedChar (c : Char) : List Char :=
  match c with
  | '"' => ['\\', '"']
  | '\\' => ['\\', '\\']
  | '\x08' => ['\\', 'b']
  | '\x0c' => ['\\', 'f']
  | '\n' => ['\\', 'n']
  | '\r' => ['\\', 'r']
  | '\t' => ['\\', 't']
  | c => if c.toNat < 0x20 then ['\\', 'u', '0', '0'] ++ Hex.ofByte (UInt8.ofNat c.toNat) else [c]

def stringChars (s : String) : List Char :=
  '"' :: s.toList.flatMap escapedChar ++ ['"']

/-- An exponent always has its sign. -/
def Numeral.chars (n : Numeral) : List Char :=
  (if n.negative then ['-'] else []) ++ Decimal.chars n.whole ++
    (if n.fraction.isEmpty then [] else '.' :: n.fraction.map Decimal.char) ++
    match n.exponent with
    | none => []
    | some e => 'e' :: (if e < 0 then '-' else '+') :: Decimal.chars e.natAbs

/-- A broken string has no text; it is written as an empty one. -/
def keyChars (key : Option String) : List Char :=
  stringChars (key.getD "")

mutual

def chars : Json → List Char
  | .null => "null".toList
  | .bool true => "true".toList
  | .bool false => "false".toList
  | .number n => Numeral.chars n
  | .text s => stringChars s
  | .brokenText => stringChars ""
  | .array [] => ['[', ']']
  | .array (item :: items) => '[' :: chars item ++ itemChars items
  | .object [] => ['\x7b', '\x7d']
  | .object ((key, value) :: members) =>
    '\x7b' :: keyChars key ++ ':' :: chars value ++ memberChars members

/-- Items after the first, and the end of the array. -/
def itemChars : List Json → List Char
  | [] => [']']
  | item :: items => ',' :: chars item ++ itemChars items

/-- Members after the first, and the end of the object. -/
def memberChars : List (Option String × Json) → List Char
  | [] => ['\x7d']
  | (key, value) :: members =>
    ',' :: keyChars key ++ ':' :: chars value ++ memberChars members

end

def print (j : Json) : String :=
  String.ofList (chars j)

end Proctor.Json
