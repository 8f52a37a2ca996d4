import Proctor.Xml.Fault

/-!
Resolving entities: the five of XML itself, and characters by their number.
-/

namespace Proctor.Xml.Entity

def named? (name : List Char) : Option Char :=
  if name = "lt".toList then some '<'
  else if name = "gt".toList then some '>'
  else if name = "amp".toList then some '&'
  else if name = "apos".toList then some '\''
  else if name = "quot".toList then some '"'
  else none

/-- The value of digits below a radix, within 32 bits, after those with the value `n`. -/
def number (radix n : Nat) : List Char → Except ReferenceFault Nat
  | [] => .ok n
  | c :: cs =>
    match Hex.value? c with
    | some d =>
      if d < radix then
        let n := n * radix + d
        if n < UInt32.size then number radix n cs else .error .tooLarge
      else .error .invalidDigit
    | none => .error .invalidDigit

def unsigned (radix : Nat) : List Char → Except ReferenceFault Nat
  | [] => .error .empty
  | c :: cs => if c = '+' ∨ c = '-' then .error .sign else number radix 0 (c :: cs)

/-- The character with the number that stands behind `#`. -/
def referenced (digits : List Char) : Except ReferenceFault Char := do
  let code ← match digits with
    | 'x' :: digits => unsigned 16 digits
    | digits => unsigned 10 digits
  if code = 0 then .error .zero
  else if h : code.isValidChar then .ok (Char.ofNatAux code h)
  else .error (.notACharacter code)

/-- The character for what stands between `&` and `;`, the first of its bytes at `first`. -/
def resolve (first last : Nat) : List Char → Except EntityFault Char
  | '#' :: digits => (referenced digits).mapError .reference
  | name =>
    match named? name with
    | some c => .ok c
    | none => .error (.unknown first last (String.ofList name))

/-- Where a reader of entities stands: in plain text, or inside an entity whose first byte is at
`first` and whose name so far is in reverse. -/
inductive State
  | plain
  | inside (first : Nat) (name : List Char)

/-- Reads text at a position after the characters in `read`, which is in reverse. An entity must end
before the next one starts. -/
def unescapeFrom (size : Nat) (read : List Char) (position : Nat) :
    State → List Char → Except EntityFault (List Char)
  | .plain, [] => .ok read.reverse
  | .inside first _, [] => .error (.unterminated (first - 1) size)
  | .plain, c :: cs =>
    let position := position + c.utf8Size
    if c = '&' then unescapeFrom size read position (.inside position []) cs
    else unescapeFrom size (c :: read) position .plain cs
  | .inside first name, c :: cs =>
    if c = ';' then
      match resolve first position name.reverse with
      | .ok resolved => unescapeFrom size (resolved :: read) (position + 1) .plain cs
      | .error fault => .error fault
    else if c = '&' then .error (.unterminated (first - 1) size)
    else unescapeFrom size read (position + c.utf8Size) (.inside first (c :: name)) cs

def unescape (cs : List Char) : Except EntityFault (List Char) :=
  unescapeFrom (cs.foldl (fun n c => n + c.utf8Size) 0) [] 0 .plain cs

end Proctor.Xml.Entity
