import Proctor.Http
import Proctor.Json.Reader
import Proctor.Registry

/-!
The authority over HTTP: hosts post registrations, and anyone may list them.
-/

namespace Proctor.Authority

def path : String := "/v2/daycare_registrations"

/-- Bytes that a posted body may have at most. -/
def bodyLimit : Nat := 2 * 1024 * 1024

def listing (r : Registry) : Http.Answer :=
  { status := 200, body := some (.array (r.list.map Registration.toJson)) }

def invalid (detail : String) : String := s!"invalid registration: {detail}"

def refused (e : RegistryError) : String := s!"registration refused: {e.message}"

open Http.Answer in
/-- Registers the host that a body describes. A body that describes none changes nothing, and what is
wrong with it is told by `detail`. -/
def register (detail : String) (body : Bytes) (now : Instant) (r : Registry) :
    Http.Answer × Registry :=
  if bodyLimit < body.length then ({ status := tooLarge }, r)
  else
    match (Json.ofBytes? body).bind Registration.ofJson? with
    | none => (.ofError badRequest (invalid detail), r)
    | some registration =>
      let r := r.expire now
      match r.insert registration now with
      | .ok (entry, r) => ({ status := 200, body := some entry.toJson }, r)
      | .error e => (.ofError badRequest (refused e), r)

open Http.Answer in
def answer (detail : String) (method : Http.Method) (target : String) (body : Bytes)
    (now : Instant) (r : Registry) : Http.Answer × Registry :=
  if Http.path target ≠ path.toList then ({ status := notFound }, r)
  else
    match method with
    | .get => (listing (r.expire now), r.expire now)
    | .head => ((listing (r.expire now)).withoutBody, r.expire now)
    | .post => register detail body now r
    | .other => ({ status := notAllowed }, r)

end Proctor.Authority
