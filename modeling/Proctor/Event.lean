import Proctor.Json.Record
import Proctor.Text.Quoted

/-!
What happens in a running container, each with its time. Output of one stream that arrives in pieces
can be merged into one event.
-/

namespace Proctor

inductive Stream
  | stdin
  | stdout
  | stderr
  deriving DecidableEq, Repr

def Stream.name : Stream → String
  | .stdin => "stdin"
  | .stdout => "stdout"
  | .stderr => "stderr"

inductive Event
  | exec (command : List String)
  | stream (stream : Stream) (data : Bytes)
  | exit (status : Int)
  | error (message : String)
  | files (files : KeyMap Bytes)
  deriving DecidableEq, Repr

namespace Event

def name : Event → String
  | .exec _ => "exec"
  | .stream s _ => s.name
  | .exit _ => "exit"
  | .error _ => "error"
  | .files _ => "files"

/-- Stream and data of a stream event. -/
def output? : Event → Option (Stream × Bytes)
  | .stream s data => some (s, data)
  | _ => none

/-- Bytes of stream data; other events have none. -/
def dataSize : Event → Nat
  | .stream _ data => data.length
  | _ => 0

/-- One line for the event, which names files without their contents. -/
def describe : Event → String
  | .exec command => "event: exec " ++ " ".intercalate command
  | .stream s data => s!"event: {s.name} \"{Text.spelled data}\""
  | .exit status => s!"event: exit {Decimal.signedText status}"
  | .error message => s!"event: error {message}"
  | .files contents => "event: files " ++ ", ".intercalate contents.keys

/-- The two events as one, when they are of one stream. -/
def merge? : Event → Event → Option Event
  | .stream s data, .stream s' data' => if s = s' then some (.stream s (data ++ data')) else none
  | _, _ => none

/-- The kinds in the order of their numbers. -/
def names : List String :=
  ["exec", "stdin", "stdout", "stderr", "exit", "error", "files"]

/-- The kind of an event is given by its name or its number. -/
def kind? : Json → Option String
  | .text s => if names.contains s then some s else none
  | .number n => (n.natural? names.length).bind (names[·]?)
  | _ => none

def statusLow : Int := Int32.minValue.toInt

def statusHigh : Int := Int32.maxValue.toInt

/-- The member that holds what an event of a kind carries. -/
def payloadKey (kind : String) : String :=
  if kind = "exec" then "execcommand"
  else if kind = "exit" then "exitstatus"
  else if kind = "error" then "error"
  else if kind = "files" then "files"
  else "streamdata"

def ofPayload? (kind : String) (payload : Json) : Option Event :=
  if kind = "exec" then (Json.asList? Json.asText? payload).map .exec
  else if kind = "exit" then (Json.asIntegerWithin? statusLow statusHigh payload).map .exit
  else if kind = "error" then (Json.asText? payload).map .error
  else if kind = "files" then (Json.asFiles? payload).map .files
  else
    let stream : Stream := if kind = "stdin" then .stdin else if kind = "stdout" then .stdout else .stderr
    (Json.asBytes? payload).map (.stream stream)

/-- Reads the kind and the one member that belongs to it from an object. -/
def ofJson? (j : Json) : Option Event := do
  match ← Json.objectFields? ["event"] j with
  | [kind] =>
    let kind ← kind.bind kind?
    match ← Json.objectFields? [payloadKey kind] j with
    | [payload] => ofPayload? kind (← payload)
    | _ => none
  | _ => none

def payload : Event → Json
  | .exec command => Json.ofTexts command
  | .stream _ data => Json.ofBytes data
  | .exit status => .integer status
  | .error message => .text message
  | .files contents => Json.ofFiles contents

def members (e : Event) : List (String × Json) :=
  [("event", .text e.name), (payloadKey e.name, e.payload)]

end Event

/-- An event and its time. -/
structure Entry where
  time : Instant
  event : Event
  deriving DecidableEq, Repr

namespace Entry

/-- Both in one event of the time of the later one, when they are of one stream. -/
def merge? (e next : Entry) : Option Entry :=
  (e.event.merge? next.event).map fun event => ⟨next.time, event⟩

/-- An entry is an object. All of its members other than the time are kept until its end, with
`depth` containers around it. -/
def ofJson? (depth : Nat) (j : Json) : Option Entry := do
  if ¬Json.areOthersKeepable (depth + 1) ["time"] j then none
  match ← Json.objectFields? ["time"] j with
  | [time] => some { time := ← Json.required Json.asInstant? time, event := ← Event.ofJson? j }
  | _ => none

def toJson (e : Entry) : Json :=
  .ofPairs (("time", Json.ofInstant e.time) :: e.event.members)

end Entry

end Proctor
