import Proctor.Json.Reader
import Proctor.Session
import Proctor.Socket.Message

/-!
The opening of a socket: the first text or binary message is the request of a session, and all that
comes after it is ignored.
-/

namespace Proctor.Socket

inductive OpeningError
  | closed
  | breach (breach : Breach)
  | unreadable
  deriving DecidableEq, Repr

/-- What to say of a breach and of an unreadable request. -/
structure Wording where
  breach : String
  unreadable : String
  deriving DecidableEq, Repr

def OpeningError.message (w : Wording) : OpeningError → String
  | .closed => "connection closed before a request arrived"
  | .breach _ => s!"reading request: {w.breach}"
  | .unreadable => s!"decoding request: {w.unreadable}"

def readRequest (document : Option Json) : Except OpeningError Request :=
  match document.bind (Request.ofJson? 0) with
  | some request => .ok request
  | none => .error .unreadable

/-- The request that a socket opens with. -/
def firstRequest : List Incoming → Except OpeningError Request
  | [] => .error .closed
  | .breach breach :: _ => .error (.breach breach)
  | .message (.text content) :: _ => readRequest (Json.ofText? content)
  | .message (.binary content) :: _ => readRequest (Json.ofBytes? content)
  | .message .close :: _ => .error .closed
  | .message .ping :: rest => firstRequest rest
  | .message .pong :: rest => firstRequest rest

/-- A client that is gone before it sent a request receives nothing. -/
def sink (received : List Incoming) : Sink :=
  match firstRequest received with
  | .error .closed => .failingAfter 0
  | _ => .reliable

variable {σ : Type}

/-- Serves a socket: runs the session that it opens with, or sends back why there is none. -/
def serve (engine : Engine σ) (host : Host) (w : Wording) (number : Nat) (route : Route)
    (received : List Incoming) (readings : Session.Readings) (sink : Sink) (s : Host.State σ) :
    (Session.State × Sink) × Host.State σ :=
  match firstRequest received with
  | .error e => (Session.abort (e.message w) sink, s)
  | .ok request => Session.run engine host number route request readings sink s

end Proctor.Socket
