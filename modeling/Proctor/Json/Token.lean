import Proctor.Bytes
import Proctor.Decimal
import Proctor.Hex
import Proctor.Json.Basic

/-!
The tokens of a JSON document. Input is a list of characters with gaps where bytes were no
character; gaps are allowed inside strings only and make them broken.
-/

namespace Proctor.Json

inductive Token
  | openArray
  | closeArray
  | openObject
  | closeObject
  | comma
  | colon
  | null
  | bool (value : Bool)
  | number (value : Numeral)
  | text (value : Option String)
  deriving DecidableEq, Repr

abbrev Symbol := Option Char

def isSpace (c : Char) : Bool :=
  c = ' ' || c = '\n' || c = '\t' || c = '\r'

/-- The value of four hexadecimal digits. -/
def unit16? (a b c d : Symbol) : Option Nat := do
  let a ← Hex.value? (← a)
  let b ← Hex.value? (← b)
  let c ← Hex.value? (← c)
  let d ← Hex.value? (← d)
  some (a * 4096 + b * 256 + c * 16 + d)

def isHighSurrogate (n : Nat) : Bool := 0xD800 ≤ n && n < 0xDC00

def isLowSurrogate (n : Nat) : Bool := 0xDC00 ≤ n && n < 0xE000

/-- The characters that `\` and one letter stand for. -/
def shortEscape? : Char → Option Char
  | '"' => some '"'
  | '\\' => some '\\'
  | '/' => some '/'
  | 'b' => some '\x08'
  | 'f' => some '\x0c'
  | 'n' => some '\n'
  | 'r' => some '\r'
  | 't' => some '\t'
  | _ => none

/-- Characters of a string so far, the latest first; none when it is broken. -/
abbrev Partial := Option (List Char)

def Partial.push (read : Partial) (c : Char) : Partial :=
  read.map (c :: ·)

/-- What a string holds after a `\u` escape. `high` is an open high surrogate: it must be followed by
a low one at once. -/
def Partial.pushUnit (read : Partial) (high : Option Nat) (n : Nat) : Partial × Option Nat :=
  match high with
  | some h =>
    if isLowSurrogate n then
      (read.push (Char.ofNat (0x10000 + (h - 0xD800) * 0x400 + (n - 0xDC00))), none)
    else (none, none)
  | none =>
    if isHighSurrogate n then (read, some n)
    else if isLowSurrogate n then (none, none)
    else (read.push (Char.ofNat n), none)

/-- Nothing but an escape may follow an open high surrogate. -/
def Partial.settle (read : Partial) (high : Option Nat) : Partial :=
  if high.isSome then none else read

/-- Reads up to the closing quote. -/
def string? (read : Partial) (high : Option Nat) : List Symbol → Option (Option String × List Symbol)
  | [] => none
  | some '"' :: rest =>
    some ((read.settle high).map fun cs => String.ofList cs.reverse, rest)
  | some '\\' :: some 'u' :: a :: b :: c :: d :: rest =>
    match unit16? a b c d with
    | some n =>
      let (read, high) := read.pushUnit high n
      string? read high rest
    | none => none
  | some '\\' :: some c :: rest =>
    match shortEscape? c with
    | some c => string? ((read.settle high).push c) none rest
    | none => none
  | none :: rest => string? none none rest
  | some c :: rest =>
    if c = '\\' ∨ c.toNat < 0x20 then none
    else string? ((read.settle high).push c) none rest

/-- Digits so far, the latest first, and then the digits that follow. -/
def digitRun (read : List Nat) : List Symbol → List Nat × List Symbol
  | some c :: rest =>
    match Decimal.digit? c with
    | some d => digitRun (d :: read) rest
    | none => (read.reverse, some c :: rest)
  | rest => (read.reverse, rest)

/-- No digit may follow a zero that stands first. -/
def whole? (input : List Symbol) : Option (Nat × List Symbol) :=
  match input with
  | some '0' :: rest => some (0, rest)
  | _ =>
    match digitRun [] input with
    | ([], _) => none
    | (ds, rest) => some (Decimal.value ds, rest)

def fraction? : List Symbol → Option (List Nat × List Symbol)
  | some '.' :: rest =>
    match digitRun [] rest with
    | ([], _) => none
    | (ds, rest) => some (ds, rest)
  | rest => some ([], rest)

def exponentDigits? (negative : Bool) (input : List Symbol) : Option (Option Int × List Symbol) :=
  match digitRun [] input with
  | ([], _) => none
  | (ds, rest) =>
    let n : Int := Decimal.value ds
    some (some (if negative then -n else n), rest)

def exponent? : List Symbol → Option (Option Int × List Symbol)
  | some c :: rest =>
    if c = 'e' ∨ c = 'E' then
      match rest with
      | some '-' :: rest => exponentDigits? true rest
      | some '+' :: rest => exponentDigits? false rest
      | rest => exponentDigits? false rest
    else some (none, some c :: rest)
  | rest => some (none, rest)

def numeral? (negative : Bool) (input : List Symbol) : Option (Numeral × List Symbol) := do
  let (whole, rest) ← whole? input
  let (fraction, rest) ← fraction? rest
  let (exponent, rest) ← exponent? rest
  some (⟨negative, whole, fraction, exponent⟩, rest)

/-- Reads the token that starts with `c`. -/
def Token.starting? (c : Char) (rest : List Symbol) : Option (Token × List Symbol) :=
  match c with
  | '[' => some (.openArray, rest)
  | ']' => some (.closeArray, rest)
  | '\x7b' => some (.openObject, rest)
  | '\x7d' => some (.closeObject, rest)
  | ',' => some (.comma, rest)
  | ':' => some (.colon, rest)
  | '"' => (string? (some []) none rest).map fun (s, rest) => (.text s, rest)
  | '-' => (numeral? true rest).map fun (n, rest) => (.number n, rest)
  | 'n' =>
    match rest with
    | some 'u' :: some 'l' :: some 'l' :: rest => some (.null, rest)
    | _ => none
  | 't' =>
    match rest with
    | some 'r' :: some 'u' :: some 'e' :: rest => some (.bool true, rest)
    | _ => none
  | 'f' =>
    match rest with
    | some 'a' :: some 'l' :: some 's' :: some 'e' :: rest => some (.bool false, rest)
    | _ => none
  | c => (numeral? false (some c :: rest)).map fun (n, rest) => (.number n, rest)

/-- Tokens so far, the latest first, and then those of the input. Every token is at least one
character, so `fuel` need not exceed the length of the input. -/
def tokensOnto? (read : List Token) : Nat → List Symbol → Option (List Token)
  | _, [] => some read.reverse
  | 0, _ => none
  | _, none :: _ => none
  | fuel + 1, some c :: rest =>
    if isSpace c then tokensOnto? read fuel rest
    else
      match Token.starting? c rest with
      | some (token, rest) => tokensOnto? (token :: read) fuel rest
      | none => none

def tokens? (input : List Symbol) : Option (List Token) :=
  tokensOnto? [] input.length input

end Proctor.Json
