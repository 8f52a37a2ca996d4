import Proctor.Base64
import Proctor.Json.Number
import Proctor.KeyMap
import Proctor.Time.Rfc3339

/-!
Records in JSON. A record is an object with known keys, of which none may be repeated and unknown
ones do not count, or an array of its fields in order. Readers take a JSON value and give none when
it does not have their form.
-/

namespace Proctor.Json

variable {α : Type}

/-- The value of a key that is not repeated. -/
def member? (members : List (Option String × Json)) (key : String) : Option (Option Json) :=
  match members.filter fun m => m.1 == some key with
  | [] => some none
  | [m] => some (some m.2)
  | _ => none

/-- The values of the known keys of an object, in the order of the keys. -/
def objectFields? (keys : List String) : Json → Option (List (Option Json))
  | .object members =>
    if members.all (·.1.isSome) then keys.mapM (member? members) else none
  | _ => none

/-- The fields of a record in order, none for a field that is not there. -/
def fields? (keys : List String) : Json → Option (List (Option Json))
  | .array items =>
    if items.length ≤ keys.length then
      some (items.map some ++ List.replicate (keys.length - items.length) none)
    else none
  | j => objectFields? keys j

def required (read : Json → Option α) (field : Option Json) : Option α :=
  field.bind read

def defaulted (default : α) (read : Json → Option α) : Option Json → Option α
  | none => some default
  | some j => read j

def asText? : Json → Option String
  | .text s => some s
  | _ => none

def asBool? : Json → Option Bool
  | .bool b => some b
  | _ => none

def asNatural? (bound : Nat) : Json → Option Nat
  | .number n => n.natural? bound
  | _ => none

def asInteger? : Json → Option Int
  | .number n => n.integer?
  | _ => none

def asIntegerWithin? (low high : Int) : Json → Option Int
  | .number n => n.integerWithin? low high
  | _ => none

def asBinary64? : Json → Option Binary64
  | .number n => n.binary64?
  | _ => none

def asInstant? : Json → Option Instant
  | .text s => Instant.read? s
  | _ => none

def asBytes? : Json → Option Bytes
  | .text s => Base64.decode? s
  | _ => none

def asList? (read : Json → Option α) : Json → Option (List α)
  | .array items => items.mapM read
  | _ => none

/-- Of repeated keys the last stands. -/
def asMap? (read : Json → Option α) : Json → Option (KeyMap α)
  | .object members =>
    do
    let pairs ← members.mapM fun (m : Option String × Json) => do some ((← m.1), (← read m.2))
    some (KeyMap.ofList pairs)
  | _ => none

def asNullable? (read : Json → Option α) : Json → Option (Option α)
  | .null => some none
  | j => (read j).map some

/-- Files by path. Of repeated paths only the last need have contents in base64. -/
def asFiles? : Json → Option (KeyMap Bytes)
  | .null => some .empty
  | j => do
    let texts ← asMap? asText? j
    let files ← texts.entries.mapM fun (path, contents) => do
      some (path, (← Base64.decode? contents))
    some (KeyMap.ofList files)

mutual

/-- Whether a value can be kept for a reader that looks at it later: it is text and finite numbers
throughout, and with the `depth` containers around it there are at most 127 nested containers. -/
def isKeepable (depth : Nat) : Json → Bool
  | .null => true
  | .bool _ => true
  | .number n => n.binary64?.isSome
  | .text _ => true
  | .brokenText => false
  | .array items => depth < 127 && areItemsKeepable (depth + 1) items
  | .object members => depth < 127 && areMembersKeepable (depth + 1) members

def areItemsKeepable (depth : Nat) : List Json → Bool
  | [] => true
  | item :: items => isKeepable depth item && areItemsKeepable depth items

def areMembersKeepable (depth : Nat) : List (Option String × Json) → Bool
  | [] => true
  | (key, value) :: members =>
    key.isSome && isKeepable depth value && areMembersKeepable depth members

end

/-- Whether the members of an object other than those with the given keys can be kept, `depth`
counting the object itself. -/
def areOthersKeepable (depth : Nat) (keys : List String) : Json → Bool
  | .object members =>
    areMembersKeepable depth (members.filter fun m => !keys.any fun k => m.1 == some k)
  | _ => false

def ofInstant (t : Instant) : Json :=
  .text t.text

def ofBinary64 (x : Binary64) : Json :=
  .number (.ofBinary64 x)

def ofBytes (bs : Bytes) : Json :=
  .text (Base64.encode bs)

def ofTexts (texts : List String) : Json :=
  .array (texts.map .text)

def ofMap (write : α → Json) (m : KeyMap α) : Json :=
  ofPairs (m.entries.map fun (k, v) => (k, write v))

def ofFiles (files : KeyMap Bytes) : Json :=
  ofMap ofBytes files

/-- A member that is left out when the value is empty. -/
def memberUnless (skip : Bool) (key : String) (value : Json) : List (String × Json) :=
  if skip then [] else [(key, value)]

end Proctor.Json
