import Proctor.Signature
import Proctor.Json.Record

/-!
Registrations, in which a host offers problem types and a capacity for a short time.
-/

namespace Proctor

structure Registration where
  hostname : String
  problemTypes : List String
  capacity : Nat
  time : Instant
  version : String := ""
  signature : String := ""
  deriving DecidableEq, Repr

namespace Registration

def capacityBound : Nat := UInt32.size

def keys : List String :=
  ["hostname", "problemTypes", "capacity", "time", "version", "signature"]

def ofJson? (j : Json) : Option Registration := do
  match ← Json.fields? keys j with
  | [hostname, problemTypes, capacity, time, version, signature] =>
    some {
      hostname := ← Json.required Json.asText? hostname
      problemTypes := ← Json.required (Json.asList? Json.asText?) problemTypes
      capacity := ← Json.required (Json.asNatural? capacityBound) capacity
      time := ← Json.required Json.asInstant? time
      version := ← Json.defaulted "" Json.asText? version
      signature := ← Json.defaulted "" Json.asText? signature }
  | _ => none

def toJson (r : Registration) : Json :=
  .ofPairs <|
    [("hostname", .text r.hostname), ("problemTypes", Json.ofTexts r.problemTypes),
      ("capacity", .natural r.capacity), ("time", Json.ofInstant r.time)] ++
    Json.memberUnless r.version.isEmpty "version" (.text r.version) ++
    Json.memberUnless r.signature.isEmpty "signature" (.text r.signature)

def sorted (problemTypes : List String) : List String :=
  problemTypes.mergeSort (fun a b => decide (a ≤ b))

/-- The order of the problem types is not covered. -/
def signedFields (r : Registration) : Signature.Fields :=
  let f := Signature.Fields.empty.addText "hostname" r.hostname
  let f := f.addTexts ((sorted r.problemTypes).zipIdx.map fun (name, i) =>
    (s!"problemType-{Decimal.text i}", name))
  let f := f.addText "capacity" (Decimal.text r.capacity)
  (f.addTime "time" r.time).addText "version" r.version

def sign (r : Registration) (secret : Bytes) : Registration :=
  { r with signature := r.signedFields.sign secret }

def verify (r : Registration) (secret : Bytes) : Except SignatureError Unit :=
  r.signedFields.verify secret r.signature "registration"

end Registration

end Proctor
