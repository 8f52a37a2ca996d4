/-!
Blank characters of every script, and the trimming and splitting of text at them.
-/

namespace Proctor.Text

/-- The characters with the property `White_Space`. -/
def isBlank (c : Char) : Bool :=
  let n := c.toNat
  (9 ≤ n && n ≤ 13) || n == 0x20 || n == 0x85 || n == 0xA0 || n == 0x1680 ||
    (0x2000 ≤ n && n ≤ 0x200A) || n == 0x2028 || n == 0x2029 || n == 0x202F || n == 0x205F ||
    n == 0x3000

def trimStart (cs : List Char) : List Char :=
  cs.dropWhile isBlank

def trimEnd (cs : List Char) : List Char :=
  (cs.reverse.dropWhile isBlank).reverse

def trimChars (cs : List Char) : List Char :=
  trimEnd (trimStart cs)

def trim (s : String) : String :=
  String.ofList (trimChars s.toList)

/-- Words found so far, the latest first, and the open word in reverse. -/
def wordsOnto (done : List (List Char)) (word : List Char) : List Char → List (List Char)
  | [] => (if word.isEmpty then done else word.reverse :: done).reverse
  | c :: cs =>
    if isBlank c then wordsOnto (if word.isEmpty then done else word.reverse :: done) [] cs
    else wordsOnto done (c :: word) cs

/-- The longest runs without a blank, in order. -/
def words (s : String) : List String :=
  (wordsOnto [] [] s.toList).map String.ofList

end Proctor.Text
