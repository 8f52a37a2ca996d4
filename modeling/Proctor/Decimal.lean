/-!
Natural numbers in decimal: the digits of a number, and the numerals that settings and options use.
-/

namespace Proctor.Decimal

/-- Decimal digits, the most significant first, in front of `after`. -/
def digitsOnto (n : Nat) (after : List Nat) : List Nat :=
  if n < 10 then n :: after else digitsOnto (n / 10) (n % 10 :: after)
  termination_by n

/-- Zero has the one digit zero; no other number starts with a zero. -/
def digits (n : Nat) : List Nat :=
  digitsOnto n []

def value (ds : List Nat) : Nat :=
  ds.foldl (fun n d => 10 * n + d) 0

def char (d : Nat) : Char :=
  Char.ofNat (48 + d)

def digit? (c : Char) : Option Nat :=
  if '0' ≤ c ∧ c ≤ '9' then some (c.toNat - 48) else none

def chars (n : Nat) : List Char :=
  (digits n).map char

def text (n : Nat) : String :=
  String.ofList (chars n)

def signedText (n : Int) : String :=
  if n < 0 then "-" ++ text n.natAbs else text n.natAbs

/-- At least `width` characters, with zeros in front. -/
def padded (width n : Nat) : List Char :=
  let cs := chars n
  List.replicate (width - cs.length) '0' ++ cs

def digits? (cs : List Char) : Option (List Nat) :=
  cs.mapM digit?

/-- A non-empty run of ASCII digits, with at most one `+` before it, below `bound`. -/
def read? (bound : Nat) (s : String) : Option Nat :=
  let cs := match s.toList with
    | '+' :: cs => cs
    | cs => cs
  match digits? cs with
  | some (d :: ds) =>
    let n := value (d :: ds)
    if n < bound then some n else none
  | _ => none

end Proctor.Decimal
