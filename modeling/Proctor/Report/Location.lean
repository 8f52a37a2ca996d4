import Proctor.Text.Digit

/-!
The place in the sources that a failure text points to: the `tests/file:line` it starts with, or the
first `File "directory/name", line number` in it.
-/

namespace Proctor.Location

/-- What follows `lead` in a text that starts with it. -/
def after? : List Char → List Char → Option (List Char)
  | [], cs => some cs
  | _ :: _, [] => none
  | l :: lead, c :: cs => if l = c then after? lead cs else none

/-- A non-empty run of digits at the start. -/
def number? (cs : List Char) : Option (List Char) :=
  match cs.takeWhile Text.isDigit with
  | [] => none
  | ds => some ds

/-- A text that starts with `tests/`, a file name and a line number. -/
def leading? (body : List Char) : Option (List Char) := do
  let cs ← after? "tests/".toList body
  let name := cs.takeWhile fun c => c ≠ ':' && c ≠ '/'
  match cs.drop name.length with
  | ':' :: cs => some ("tests/".toList ++ name ++ ':' :: (← number? cs))
  | _ => none

/-- The line number behind the quote that closes a file name. -/
def line? (cs : List Char) : Option (List Char) := do
  number? (← after? "\", line ".toList cs)

/-- What follows the last slash before the next quote. -/
def afterDirectory? (found : Option (List Char)) : List Char → Option (List Char)
  | [] => found
  | c :: cs =>
    if c = '"' then found
    else afterDirectory? (if c = '/' then some cs else found) cs

/-- The longest name without a slash that a line number follows; `name` is the part before, in
reverse, and `found` the longest so far. -/
def name? (found : Option (List Char × List Char)) (name : List Char) :
    List Char → Option (List Char × List Char)
  | [] => found
  | c :: cs =>
    let found := match name, line? (c :: cs) with
      | _ :: _, some line => some (name.reverse, line)
      | _, _ => found
    if c = '/' then found else name? found (c :: name) cs

/-- A frame of a stack trace at the start of a text, as its file name and line. -/
def frame? (cs : List Char) : Option (List Char × List Char) := do
  let cs ← after? "File \"".toList cs
  name? none [] (← afterDirectory? none cs)

/-- The first frame anywhere in a text. -/
def firstFrame? : List Char → Option (List Char × List Char)
  | [] => none
  | c :: cs =>
    match frame? (c :: cs) with
    | some frame => some frame
    | none => firstFrame? cs

/-- `file:line`, or nothing when the text points to no place. -/
def ofFailure (body : String) : String :=
  let cs := body.toList
  match leading? cs with
  | some place => String.ofList place
  | none =>
    match firstFrame? cs with
    | some (name, line) => String.ofList (name ++ ':' :: line)
    | none => ""

end Proctor.Location
