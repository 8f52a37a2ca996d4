import Proctor.Bundle

/-!
The two kinds of frames on a socket: a client sends requests, and a host answers with bundles, events
and errors.
-/

namespace Proctor

structure Request where
  userId : Option Int := none
  bundle : Option Bundle := none
  stdin : Option String := none
  deriving DecidableEq, Repr

namespace Request

def ofJson? (depth : Nat) (j : Json) : Option Request := do
  match ← Json.fields? ["userID", "commitBundle", "stdin"] j with
  | [userId, bundle, stdin] =>
    some {
      userId := ← Json.defaulted none (Json.asNullable? Json.asInteger?) userId
      bundle := ← Json.defaulted none (Json.asNullable? (Bundle.ofJson? (depth + 1))) bundle
      stdin := ← Json.defaulted none (Json.asNullable? Json.asText?) stdin }
  | _ => none

def toJson (r : Request) : Json :=
  .ofPairs <|
    Bundle.present "userID" (r.userId.map .integer) ++
    Bundle.present "commitBundle" (r.bundle.map Bundle.toJson) ++
    Bundle.present "stdin" (r.stdin.map .text)

end Request

structure Response where
  bundle : Option Bundle := none
  event : Option Entry := none
  error : Option String := none
  deriving DecidableEq, Repr

namespace Response

def ofBundle (b : Bundle) : Response := { bundle := some b }

def ofEntry (e : Entry) : Response := { event := some e }

def ofError (message : String) : Response := { error := some message }

def ofJson? (depth : Nat) (j : Json) : Option Response := do
  match ← Json.fields? ["commitBundle", "event", "error"] j with
  | [bundle, event, error] =>
    some {
      bundle := ← Json.defaulted none (Json.asNullable? (Bundle.ofJson? (depth + 1))) bundle
      event := ← Json.defaulted none (Json.asNullable? (Entry.ofJson? (depth + 1))) event
      error := ← Json.defaulted none (Json.asNullable? Json.asText?) error }
  | _ => none

def toJson (r : Response) : Json :=
  .ofPairs <|
    Bundle.present "commitBundle" (r.bundle.map Bundle.toJson) ++
    Bundle.present "event" (r.event.map Entry.toJson) ++
    Bundle.present "error" (r.error.map .text)

end Response

end Proctor
