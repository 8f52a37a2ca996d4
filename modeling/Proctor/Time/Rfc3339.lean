import Proctor.Decimal
import Proctor.Text.Blank
import Proctor.Time.Instant

/-!
Instants in the form `2024-01-15T09:30:00Z`. Writing gives one form; reading also takes blanks
between the parts, short numbers, any offset and signed years.
-/

namespace Proctor.Instant

/-- Three, six or nine places, as few as hold the fraction. -/
def fractionChars (nanos : Nat) : List Char :=
  if nanos = 0 then []
  else if nanos % 1000000 = 0 then '.' :: Decimal.padded 3 (nanos / 1000000)
  else if nanos % 1000 = 0 then '.' :: Decimal.padded 6 (nanos / 1000)
  else '.' :: Decimal.padded 9 nanos

/-- A year outside 0 to 9999 has a sign. -/
def yearChars (year : Int) : List Char :=
  if year < 0 then '-' :: Decimal.padded 4 year.natAbs
  else if 9999 < year then '+' :: Decimal.padded 4 year.natAbs
  else Decimal.padded 4 year.natAbs

def dateChars (d : Date) : List Char :=
  yearChars d.year ++ '-' :: Decimal.padded 2 d.month ++ '-' :: Decimal.padded 2 d.day

def chars (t : Instant) : List Char :=
  let time := (t.seconds % 86400).toNat
  let leap := t.nanos / nanosPerSecond
  dateChars (Date.ofDays (t.seconds / 86400)) ++ 'T' :: Decimal.padded 2 (time / 3600) ++
    ':' :: Decimal.padded 2 (time / 60 % 60) ++ ':' :: Decimal.padded 2 (time % 60 + leap) ++
    fractionChars (t.nanos % nanosPerSecond) ++ ['Z']

def text (t : Instant) : String :=
  String.ofList t.chars

/-- The instant to the second, as signatures cover it. -/
def canonical (t : Instant) : String :=
  t.rounded.text

/-- Values of at most `limit` leading digits, with the rest. -/
def takeDigits : Nat → List Char → List Nat × List Char
  | limit + 1, c :: cs =>
    match Decimal.digit? c with
    | some d =>
      let (ds, rest) := takeDigits limit cs
      (d :: ds, rest)
    | none => ([], c :: cs)
  | _, cs => ([], cs)

/-- One to `limit` digits. -/
def digits? (limit : Nat) (cs : List Char) : Option (List Nat × List Char) :=
  match takeDigits limit cs with
  | ([], _) => none
  | (ds, rest) => some (ds, rest)

/-- A number of one to `limit` digits within bounds, after blanks. -/
def number? (limit low high : Nat) (cs : List Char) : Option (Nat × List Char) := do
  let (ds, rest) ← digits? limit (Text.trimStart cs)
  let n := Decimal.value ds
  if low ≤ n ∧ n ≤ high then some (n, rest) else none

/-- Four digits at most, or a sign and any number of digits, after blanks. -/
def year? (cs : List Char) : Option (Int × List Char) :=
  match Text.trimStart cs with
  | '-' :: cs => (digits? cs.length cs).map fun (ds, rest) => (-(Decimal.value ds : Int), rest)
  | '+' :: cs => (digits? cs.length cs).map fun (ds, rest) => ((Decimal.value ds : Int), rest)
  | cs => (digits? 4 cs).map fun (ds, rest) => ((Decimal.value ds : Int), rest)

/-- One certain character, after blanks. -/
def mark? (mark : Char) (cs : List Char) : Option (List Char) :=
  match Text.trimStart cs with
  | c :: cs => if c = mark then some cs else none
  | [] => none

def isInRange (d : Date) : Bool :=
  -262143 ≤ d.year && d.year ≤ 262142

def date? (cs : List Char) : Option (Date × List Char) := do
  let (year, cs) ← year? cs
  let cs ← mark? '-' cs
  let (month, cs) ← number? 2 1 12 cs
  let cs ← mark? '-' cs
  let (day, cs) ← number? 2 1 31 cs
  let date : Date := ⟨year, month, day⟩
  if date.isValid ∧ isInRange date then some (date, cs) else none

/-- Nanoseconds of a fraction, whose places after the ninth do not count. -/
def fraction? : List Char → Option (Nat × List Char)
  | '.' :: cs => do
    let (ds, rest) ← digits? cs.length cs
    some (Decimal.value (ds ++ List.replicate 9 0 |>.take 9), rest)
  | cs => some (0, cs)

/-- Second of the day and nanoseconds; second 60 is the fraction of a leap second. -/
def timeOfDay? (cs : List Char) : Option (Nat × Nat × List Char) := do
  let (hour, cs) ← number? 2 0 23 cs
  let cs ← mark? ':' cs
  let (minute, cs) ← number? 2 0 59 cs
  let cs ← mark? ':' cs
  let (second, cs) ← number? 2 0 60 cs
  let (nanos, cs) ← fraction? cs
  let leap := second / 60
  some (hour * 3600 + minute * 60 + second - leap, nanos + leap * nanosPerSecond, cs)

def sign? : List Char → Option (Int × List Char)
  | '+' :: cs => some (1, cs)
  | '-' :: cs => some (-1, cs)
  | '−' :: cs => some (-1, cs)
  | _ => none

/-- Two digits, with nothing before them. -/
def twoDigits? (cs : List Char) : Option (Nat × List Char) :=
  match takeDigits 2 cs with
  | ([a, b], rest) => some (10 * a + b, rest)
  | _ => none

/-- Seconds east of universal time; hours and minutes may stand apart by colons and blanks. -/
def offset? (cs : List Char) : Option (Int × List Char) :=
  match cs with
  | 'Z' :: rest => some (0, rest)
  | 'z' :: rest => some (0, rest)
  | cs =>
    if (cs.take 3).map Char.toUpper = ['U', 'T', 'C'] then some (0, cs.drop 3)
    else do
      let (sign, cs) ← sign? cs
      let (hours, cs) ← twoDigits? cs
      let (minutes, cs) ← twoDigits? (cs.dropWhile fun c => c = ':' || Text.isBlank c)
      if hours < 24 ∧ minutes < 60 then some (sign * (hours * 3600 + minutes * 60), cs) else none

def readChars? (cs : List Char) : Option Instant := do
  let (date, cs) ← date? cs
  let cs ← match cs with
    | 't' :: cs => some cs
    | 'T' :: cs => some cs
    | ' ' :: cs => some cs
    | _ => none
  let (time, nanos, cs) ← timeOfDay? cs
  let (offset, cs) ← offset? (Text.trimStart cs)
  let seconds := date.toDays * 86400 + time - offset
  if (Text.trimStart cs).isEmpty ∧ isInRange (Date.ofDays (seconds / 86400)) then
    make? seconds nanos
  else none

def read? (s : String) : Option Instant :=
  readChars? s.toList

end Proctor.Instant
