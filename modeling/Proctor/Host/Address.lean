import Proctor.Admission
import Proctor.Dispatch
import Proctor.Host
import Proctor.Http
import Proctor.Percent

/-!
What a host offers over HTTP: a health page, and a socket for each problem type and action.
-/

namespace Proctor.Host

/-- Where a target leads. The names in the address of a socket are still escaped. -/
inductive Place
  | health
  | socket (problemType action : String)
  | nowhere
  deriving DecidableEq, Repr

namespace Place

def healthPath : String := "/v2/health"

def socketsPath : String := "/v2/sockets/"

/-- What follows the beginning of a text, if it begins so. -/
def after? (beginning cs : List Char) : Option (List Char) :=
  if beginning.isPrefixOf cs then some (cs.drop beginning.length) else none

/-- A problem type and an action with a slash between them; the action is not empty. -/
def ofNames (names : List Char) : Place :=
  let problemType := names.takeWhile (· ≠ '/')
  match names.drop problemType.length with
  | _ :: action =>
    if action.isEmpty ∨ action.contains '/' then .nowhere
    else .socket (String.ofList problemType) (String.ofList action)
  | [] => .nowhere

def ofTarget (target : String) : Place :=
  let path := Http.path target
  if path = healthPath.toList then .health
  else
    match after? socketsPath.toList path with
    | some names => ofNames names
    | none => .nowhere

end Place

/-- The names in the address of a socket, which are UTF-8 once their escapes are replaced. -/
def route? (problemType action : String) : Option Route := do
  some ⟨← Percent.decodeText? problemType, ← Percent.decodeText? action⟩

def healthy : Http.Answer :=
  { status := 200, body := some (.ofPairs [("status", .text "ok")]) }

open Http.Answer in
/-- The status for a request to the address of a socket that does not ask for one. -/
def plainStatus (method : Http.Method) (route : Option Route) : Nat :=
  match method with
  | .get => badRequest
  | .head => if route.isSome then notAllowed else badRequest
  | _ => notAllowed

open Http.Answer in
/-- The answer to a request that does not ask for a socket. -/
def answer (method : Http.Method) (target : String) : Http.Answer :=
  match Place.ofTarget target with
  | .nowhere => { status := notFound }
  | .health =>
    match method with
    | .get => healthy
    | .head => healthy.withoutBody
    | _ => { status := notAllowed }
  | .socket problemType action => { status := plainStatus method (route? problemType action) }

open Http.Answer in
/-- The route of the socket at a target, or the status with which it is refused. -/
def upgrade (target : String) : Except Nat Route :=
  match Place.ofTarget target with
  | .nowhere => .error notFound
  | .health => .error healthy.status
  | .socket problemType action =>
    match route? problemType action with
    | some route => .ok route
    | none => .error badRequest

/-- Whether a character may stand in the value of a header. -/
def isHeaderChar (c : Char) : Bool :=
  c = '\t' || (' ' ≤ c && c < '\x7f')

/-- Blanks around the value of a header are no part of it. -/
def trimHeader (cs : List Char) : List Char :=
  let isBlank (c : Char) : Bool := c = ' ' || c = '\t'
  ((cs.dropWhile isBlank).reverse.dropWhile isBlank).reverse

/-- The origin that browsers may open sockets from: the authority, if it has an address that a header
can hold. -/
def origin? (h : Host) : Option String :=
  let origin := Dispatch.withoutTrailingSlashes h.authority
  if origin.isEmpty ∨ ¬origin.toList.all isHeaderChar then none
  else some (String.ofList (trimHeader origin.toList))

end Proctor.Host
