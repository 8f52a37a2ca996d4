import Proctor.Json.Token

/-!
Reading a JSON document: one value, nested to any depth, and nothing after it.
-/

namespace Proctor.Json

mutual

/-- Reads one value. `fuel` bounds the number of tokens in it. -/
def value? : Nat → List Token → Option (Json × List Token)
  | 0, _ => none
  | _, .null :: rest => some (.null, rest)
  | _, .bool b :: rest => some (.bool b, rest)
  | _, .number n :: rest => some (.number n, rest)
  | _, .text (some s) :: rest => some (.text s, rest)
  | _, .text none :: rest => some (.brokenText, rest)
  | _, .openArray :: .closeArray :: rest => some (.array [], rest)
  | fuel + 1, .openArray :: rest => items? fuel [] rest
  | _, .openObject :: .closeObject :: rest => some (.object [], rest)
  | fuel + 1, .openObject :: rest => members? fuel [] rest
  | _, _ => none

/-- Reads the items of an array after those in `read`, the latest first. -/
def items? : Nat → List Json → List Token → Option (Json × List Token)
  | 0, _, _ => none
  | fuel + 1, read, input =>
    match value? fuel input with
    | some (item, .comma :: rest) => items? fuel (item :: read) rest
    | some (item, .closeArray :: rest) => some (.array (item :: read).reverse, rest)
    | _ => none

/-- Reads the members of an object after those in `read`, the latest first. -/
def members? : Nat → List (Option String × Json) → List Token → Option (Json × List Token)
  | 0, _, _ => none
  | fuel + 1, read, input =>
    match input with
    | .text key :: .colon :: rest =>
      match value? fuel rest with
      | some (value, .comma :: rest) => members? fuel ((key, value) :: read) rest
      | some (value, .closeObject :: rest) => some (.object ((key, value) :: read).reverse, rest)
      | _ => none
    | _ => none

end

def ofTokens? (tokens : List Token) : Option Json :=
  match value? (tokens.length + 1) tokens with
  | some (value, []) => some value
  | _ => none

def ofSymbols? (input : List Symbol) : Option Json :=
  (tokens? input).bind ofTokens?

def ofBytes? (bs : Bytes) : Option Json :=
  ofSymbols? (Utf8.scan bs)

def ofText? (s : String) : Option Json :=
  ofSymbols? (s.toList.map some)

end Proctor.Json
