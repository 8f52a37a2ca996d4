import Proctor.Admission
import Proctor.Registration

/-!
The registry of hosts: registrations that are signed, of the right version and of the current time
are kept until they are too old, and work is assigned by capacity.
-/

namespace Proctor

inductive RegistryError
  | signature (error : SignatureError)
  | version (found expected : String)
  | drift (seconds : Nat)
  | noHost (problemType : String)
  deriving DecidableEq, Repr

open Text in
def RegistryError.message : RegistryError → String
  | .signature error => error.message
  | .version found expected =>
    s!"daycare version {quoted found} does not match {quoted expected}"
  | .drift seconds => s!"daycare clock is {Decimal.text seconds}s away from ours"
  | .noHost problemType => s!"no daycare available for problem type {quoted problemType}"

structure Registry where
  secret : Bytes
  version : String
  hosts : KeyMap Registration := .empty
  deriving DecidableEq, Repr

namespace Registry

/-- Seconds by which the clock of a host may differ. -/
def maxDrift : Nat := 60

/-- Nanoseconds after which a registration that is not renewed is dropped. -/
def lifetime : Int := 120 * nanosPerSecond

/-- The version that hosts of this library give. -/
def currentVersion : String := "0.1.0"

def expire (r : Registry) (now : Instant) : Registry :=
  { r with hosts := r.hosts.filter fun _ entry => now.since entry.time ≤ lifetime }

/-- What is kept of a registration: its types in order and the time of its arrival. -/
def entryOf (registration : Registration) (now : Instant) : Registration :=
  { registration with
    problemTypes := Registration.sorted registration.problemTypes
    time := now
    version := ""
    signature := "" }

/-- Why a registration is refused, if it is. -/
def refusal? (r : Registry) (registration : Registration) (now : Instant) : Option RegistryError :=
  let drift := Bundle.distance now registration.time
  match registration.verify r.secret with
  | .error error => some (.signature error)
  | .ok () =>
    if registration.version ≠ r.version then some (.version registration.version r.version)
    else if maxDrift < drift then some (.drift drift)
    else none

/-- Keeps a registration in the place of the previous one of its host. -/
def insert (r : Registry) (registration : Registration) (now : Instant) :
    Except RegistryError (Registration × Registry) :=
  match r.refusal? registration now with
  | some error => .error error
  | none =>
    let entry := entryOf registration now
    .ok (entry, { r with hosts := r.hosts.insert entry.hostname entry })

/-- The registrations by host name. -/
def list (r : Registry) : List Registration :=
  r.hosts.values

/-- The hosts that offer a problem type, with their capacities. -/
def candidates (r : Registry) (problemType : String) : List (String × Nat) :=
  (r.list.filter fun entry => 0 < entry.capacity && entry.problemTypes.contains problemType).map
    fun entry => (entry.hostname, entry.capacity)

def totalCapacity (candidates : List (String × Nat)) : Nat :=
  (candidates.map (·.2)).foldl (· + ·) 0

/-- Each host takes as many draws as its capacity. -/
def pick? : List (String × Nat) → Nat → Option String
  | [], _ => none
  | (hostname, capacity) :: rest, draw =>
    if draw < capacity then some hostname else pick? rest (draw - capacity)

/-- The host for a draw below the total capacity of the candidates. -/
def assign (r : Registry) (problemType : String) (draw : Nat) : Except RegistryError String :=
  match pick? (r.candidates problemType) draw with
  | some hostname => .ok hostname
  | none => .error (.noHost problemType)

end Registry

end Proctor
