/-!
JSON documents as written: object members keep their order and repetitions, numbers keep their
digits, and a string that is no text (a lone surrogate, bytes that are not UTF-8) is kept as broken,
because only a reader that wants the string has to refuse it.
-/

namespace Proctor

/-- A number as written: `fraction` holds the digits after the point, none when there is no point. -/
structure Numeral where
  negative : Bool
  whole : Nat
  fraction : List Nat
  exponent : Option Int
  deriving DecidableEq, Repr

inductive Json
  | null
  | bool (value : Bool)
  | number (value : Numeral)
  | text (value : String)
  | brokenText
  | array (items : List Json)
  | object (members : List (Option String × Json))
  deriving Repr, Inhabited

namespace Json

def natural (n : Nat) : Json :=
  .number ⟨false, n, [], none⟩

def integer (n : Int) : Json :=
  .number ⟨n < 0, n.natAbs, [], none⟩

def ofPairs (members : List (String × Json)) : Json :=
  .object (members.map fun (k, v) => (some k, v))

end Json

end Proctor
