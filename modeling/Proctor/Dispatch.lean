import Proctor.Admission
import Proctor.Json.Reader
import Proctor.Wire

/-!
Sending a bundle to a host: the address of an action, the request, what the replies add up to, and
the checks on a bundle that comes back.
-/

namespace Proctor

inductive DispatchError
  | missing (part : String)
  | unreadable
  | refused (reason : String)
  | signature (error : SignatureError)
  | stale (seconds : Nat)
  deriving DecidableEq, Repr

/-- What is wrong with an unreadable reply is told by `detail`. -/
def DispatchError.message (detail : String) : DispatchError → String
  | .missing part => s!"bundle is missing the {part}"
  | .unreadable => s!"json error: {detail}"
  | .refused reason => s!"daycare refused the request: {reason}"
  | .signature error => error.message
  | .stale seconds => s!"commit timestamp is {Decimal.text seconds}s away from now"

namespace Dispatch

def withoutTrailingSlashes (s : String) : String :=
  String.ofList (s.toList.reverse.dropWhile (· = '/')).reverse

/-- Whether the text names a scheme. -/
def hasScheme : List Char → Bool
  | ':' :: '/' :: '/' :: _ => true
  | _ :: cs => hasScheme cs
  | [] => false

/-- A host without a scheme is reached over a secured socket. -/
def address (host problemType action : String) : String :=
  let base := withoutTrailingSlashes host
  let base := if hasScheme base.toList then base else "wss://" ++ base
  s!"{base}/v2/sockets/{problemType}/{action}"

def part (value : Option α) (name : String) : Except DispatchError α :=
  match value with
  | some a => .ok a
  | none => .error (.missing name)

/-- The address for a bundle and the request to send there. -/
def request (host : String) (b : Bundle) : Except DispatchError (String × Request) := do
  let problemType ← part b.problemType "problem type"
  let commit ← part b.commit "commit"
  .ok (address host problemType.name commit.action, { bundle := some b })

/-- Events in the order of their arrival, and the bundle that ends the exchange. -/
structure Result where
  events : List Entry := []
  bundle : Option Bundle := none
  deriving DecidableEq, Repr

/-- Reads replies up to the first bundle or error. -/
def collect (r : Result) : List Bytes → Except DispatchError Result
  | [] => .ok r
  | reply :: replies =>
    match (Json.ofBytes? reply).bind (Response.ofJson? 0) with
    | none => .error .unreadable
    | some response =>
      match response.error with
      | some reason => .error (.refused reason)
      | none =>
        let r := { r with events := r.events ++ response.event.toList }
        match response.bundle with
        | some b => .ok { r with bundle := some b }
        | none => collect r replies

end Dispatch

/-- Checks that a bundle that came back is complete, signed throughout, and recent. -/
def Bundle.verifyReturned (b : Bundle) (secret : Bytes) (now : Instant) :
    Except DispatchError Unit := do
  let problemType ← Dispatch.part b.problemType "problem type"
  let problem ← Dispatch.part b.problem "problem"
  let commit ← Dispatch.part b.commit "commit"
  (problemType.verify secret b.problemTypeSignature).mapError .signature
  (problem.verify b.steps secret b.problemSignature).mapError .signature
  (commit.verify b.context secret b.commitSignature).mapError .signature
  let age := distance now commit.updatedAt
  if age ≤ maxAge then .ok () else .error (.stale age)

end Proctor
