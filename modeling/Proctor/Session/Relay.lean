import Proctor.Session.Sink
import Proctor.Transcript

/-!
The relay of a session's events. Each event goes to the client and into the record; once one cannot be
sent no further one is tried, but all of them are recorded.
-/

namespace Proctor

structure Relay where
  sink : Sink
  transcript : Transcript
  connected : Bool := true

namespace Relay

def pass (r : Relay) (e : Entry) : Relay :=
  let (connected, sink) := if r.connected then r.sink.send (.ofEntry e) else (false, r.sink)
  { sink, transcript := r.transcript.record e, connected }

def passAll (r : Relay) (entries : List Entry) : Relay :=
  entries.foldl pass r

end Relay

end Proctor
