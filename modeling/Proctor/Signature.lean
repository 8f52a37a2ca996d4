import Proctor.Base64
import Proctor.Hex
import Proctor.KeyMap
import Proctor.Sha256
import Proctor.Text.Blank
import Proctor.Time.Rfc3339

/-!
Signatures over named fields. The fields of a record are written in one canonical text, keys sorted
and every special byte escaped, and a signature is the keyed digest of that text in base64.
-/

namespace Proctor

inductive SignatureError
  | malformed
  | mismatch (record : String)
  deriving DecidableEq, Repr

def SignatureError.message : SignatureError → String
  | .malformed => "signature is not valid base64"
  | .mismatch record => s!"{record} signature mismatch"

namespace Signature

/-- Bytes that stand for themselves: ASCII letters and digits, `-`, `.`, `_` and `~`. -/
def isPlain (b : UInt8) : Bool :=
  (48 ≤ b && b ≤ 57) || (65 ≤ b && b ≤ 90) || (97 ≤ b && b ≤ 122) ||
    b == 45 || b == 46 || b == 95 || b == 126

def upperHexDigit (n : Nat) : Char :=
  Char.ofNat (if n < 10 then 48 + n else 55 + n)

def escapeByte (b : UInt8) : List Char :=
  if isPlain b then [Char.ofNat b.toNat]
  else ['%', upperHexDigit (b.toNat / 16), upperHexDigit (b.toNat % 16)]

def escapeChars (bs : Bytes) : List Char :=
  bs.flatMap escapeByte

def escape (bs : Bytes) : String :=
  String.ofList (escapeChars bs)

/-- Values by key; the values of one key stay in the order in which they were added. -/
structure Fields where
  values : KeyMap (List Bytes)
  deriving DecidableEq, Repr

namespace Fields

def empty : Fields := ⟨.empty⟩

def addAll (f : Fields) (key : String) (values : List Bytes) : Fields :=
  ⟨f.values.insert key ((f.values.find? key).getD [] ++ values)⟩

def add (f : Fields) (key : String) (value : Bytes) : Fields :=
  f.addAll key [value]

def addText (f : Fields) (key value : String) : Fields :=
  f.add key (Utf8.encode value)

def addTime (f : Fields) (key : String) (time : Instant) : Fields :=
  f.addText key time.canonical

/-- Adds pairs of a key and a text in order. -/
def addTexts (f : Fields) (pairs : List (String × String)) : Fields :=
  pairs.foldl (fun f p => f.addText p.1 p.2) f

/-- One text for each file, named by its path after `stem`. -/
def addFiles (f : Fields) (stem : String) (files : KeyMap Bytes) : Fields :=
  files.entries.foldl (fun f p => f.add (stem ++ p.1) p.2) f

def pairChars (key : String) (value : Bytes) : List Char :=
  escapeChars (Utf8.encode key) ++ '=' :: escapeChars value

/-- All pairs, those of one key together. -/
def pairs (f : Fields) : List (List Char) :=
  f.values.entries.flatMap fun (key, values) => values.map (pairChars key)

/-- The canonical text: `key=value` pairs by sorted keys with `&` between them. -/
def chars (f : Fields) : List Char :=
  List.intercalate ['&'] f.pairs

def encode (f : Fields) : String :=
  String.ofList f.chars

def digest (f : Fields) (secret : Bytes) : Bytes :=
  Sha256.hmac secret (Utf8.encode f.encode)

def sign (f : Fields) (secret : Bytes) : String :=
  Base64.encode (f.digest secret)

/-- Blanks around a signature do not count. -/
def verify (f : Fields) (secret : Bytes) (signature record : String) : Except SignatureError Unit :=
  match Base64.decode? (Text.trim signature) with
  | none => .error .malformed
  | some bytes => if bytes = f.digest secret then .ok () else .error (.mismatch record)

end Fields

end Signature

end Proctor
