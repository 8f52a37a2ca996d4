/-!
File patterns. `*`, `?` and sets of characters stay within one component of a path; `**` stands for
any number of whole components.
-/

namespace Proctor.Glob

/-- A range of characters; a single character is a range of its own. -/
structure Range where
  first : Char
  last : Char
  deriving DecidableEq, Repr

inductive Token
  | char (c : Char)
  | anyChar
  | anySequence
  | anyComponents
  | within (ranges : List Range)
  | except (ranges : List Range)
  deriving DecidableEq, Repr

/-- The ranges that a set between brackets names. -/
def ranges : List Char → List Range
  | first :: '-' :: last :: rest => ⟨first, last⟩ :: ranges rest
  | c :: rest => ⟨c, c⟩ :: ranges rest
  | [] => []

/-- A set and what follows it. Its first character may be a closing bracket. -/
def set? : List Char → Option (List Range × List Char)
  | [] => none
  | first :: rest =>
    let more := rest.takeWhile (· ≠ ']')
    match rest.drop more.length with
    | [] => none
    | _ :: behind => some (ranges (first :: more), behind)

/-- Reads a pattern; `fresh` tells that a component starts here, and `inside` that the pattern before
this point ended with `**`, which need not be repeated. `fuel` bounds the length of the pattern. -/
def tokens? (fresh inside : Bool) : Nat → List Char → Option (List Token)
  | _, [] => some []
  | 0, _ => none
  | _, '*' :: '*' :: '*' :: _ => none
  | fuel + 1, '*' :: '*' :: rest =>
    if ¬fresh then none
    else
      let more? := match rest with
        | [] => some []
        | '/' :: rest => tokens? true true fuel rest
        | _ => none
      if inside then more? else more?.map (.anyComponents :: ·)
  | fuel + 1, '*' :: rest => (tokens? false false fuel rest).map (.anySequence :: ·)
  | fuel + 1, '?' :: rest => (tokens? false false fuel rest).map (.anyChar :: ·)
  | fuel + 1, '[' :: '!' :: rest => do
    let (ranges, rest) ← set? rest
    (tokens? false false fuel rest).map (.except ranges :: ·)
  | fuel + 1, '[' :: rest => do
    let (ranges, rest) ← set? rest
    (tokens? false false fuel rest).map (.within ranges :: ·)
  | fuel + 1, c :: rest => (tokens? (c = '/') false fuel rest).map (.char c :: ·)

/-- The tokens of a pattern, none when it is malformed. -/
def parse? (pattern : String) : Option (List Token) :=
  tokens? true false pattern.length pattern.toList

/-- A name can match, can match no more from here, or can match no more at all because it is too
short for what is left of the pattern. -/
inductive Verdict
  | accepted
  | refused
  | tooShort
  deriving DecidableEq, Repr

/-- Matches the rest of a pattern behind every part of a component. -/
def behindSequence (rest : List Char → Verdict) (name : List Char) : Verdict :=
  match rest name with
  | .refused =>
    match name with
    | [] => .refused
    | c :: name => if c = '/' then .refused else behindSequence rest name
  | verdict => verdict

/-- Matches the rest of a pattern behind every further component, and at the end. -/
def behindComponents (rest : List Char → Verdict) : List Char → Verdict
  | [] => rest []
  | c :: name =>
    if c = '/' then
      match rest name with
      | .refused => behindComponents rest name
      | verdict => verdict
    else behindComponents rest name

def isIn (ranges : List Range) (c : Char) : Bool :=
  ranges.any fun r => r.first ≤ c && c ≤ r.last

/-- Whether a token that stands for one character stands for this one. -/
def Token.accepts (t : Token) (c : Char) : Bool :=
  match t with
  | .char c' => c = c'
  | .anyChar => c ≠ '/'
  | .within ranges => c ≠ '/' && isIn ranges c
  | .except ranges => c ≠ '/' && !isIn ranges c
  | _ => false

def judge : List Token → List Char → Verdict
  | [], [] => .accepted
  | [], _ :: _ => .refused
  | .anySequence :: rest, name => behindSequence (judge rest) name
  | .anyComponents :: rest, name =>
    match judge rest name with
    | .refused => behindComponents (judge rest) name
    | verdict => verdict
  | _ :: _, [] => .tooShort
  | token :: rest, c :: name => if token.accepts c then judge rest name else .refused

def accepts (pattern : List Token) (name : String) : Bool :=
  judge pattern name.toList = .accepted

end Proctor.Glob
