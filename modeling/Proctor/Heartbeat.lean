import Proctor.Dispatch
import Proctor.Registry

/-!
The heartbeat of a host: the registrations that it posts to the authority, and what it logs about
them.
-/

namespace Proctor

structure Heartbeat where
  hostname : String
  problemTypes : List String
  capacity : Nat
  secret : Bytes
  deriving DecidableEq, Repr

namespace Heartbeat

def endpoint (authority : String) : String :=
  Dispatch.withoutTrailingSlashes authority ++ "/v2/daycare_registrations"

/-- The registration that is posted at a time. -/
def registration (h : Heartbeat) (now : Instant) : Registration :=
  Registration.sign
    { hostname := h.hostname
      problemTypes := h.problemTypes
      capacity := h.capacity
      time := now
      version := Registry.currentVersion } h.secret

inductive BeatError
  | request
  | rejected (status : Nat) (body : String)
  deriving DecidableEq, Repr

/-- The message for a beat that the authority answered with a failure. -/
def rejectedMessage (status : Nat) (body : String) : String :=
  s!"authority answered {Decimal.text status}: {body}"

/-- What an answer with a status says about the beat. -/
def judge (status : Nat) (body : String) : Except BeatError Unit :=
  if 200 ≤ status ∧ status < 300 then .ok () else .error (.rejected status body)

def logLine (succeeded : Bool) : String :=
  if succeeded then "registered with authority" else "registration failed"

/-- The log after each beat: only a change between success and failure adds a line. -/
def log (last : Option Bool) : List Bool → List String
  | [] => []
  | succeeded :: rest =>
    if last = some succeeded then log last rest
    else logLine succeeded :: log (some succeeded) rest

end Heartbeat

end Proctor
