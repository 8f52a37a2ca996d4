import Proctor.Admission
import Proctor.Grading
import Proctor.Host
import Proctor.Session.Relay

/-!
A session: one request, admitted or refused, run in a sandbox of its own, and answered. Every event
goes to the client as it happens; the result of a graded action goes back as a signed bundle.
-/

namespace Proctor

namespace Session

/-- Where a session stands when nothing more happens in it by itself: it waits for a slot, its command runs
without an end, or it is over. -/
inductive State
  | waiting
  | executing
  | responded
  | aborted
  deriving DecidableEq, Repr

/-- What a session reads from clocks and chance: the time of its start, the times of its events by
number, that of the uploaded files in seconds, how long the sandbox was open when its report was
read, and the draw of a user id. -/
structure Readings where
  started : Instant
  entryTime : Nat → Instant
  fileTime : Nat
  elapsed : Span
  draw : Nat

/-- The action whose result is scored and signed. -/
def gradedAction : String := "grade"

variable {σ : Type}

def order (a : Admitted) : Sandbox.Order where
  name := "nanny-" ++ Decimal.signedText a.userId
  image := a.problemType.image
  limits := a.limits
  interactive := a.action.interactive

/-- Uploads the files and runs the action; a card fails where no files can be uploaded. -/
def grade (engine : Engine σ) (a : Admitted) (readings : Readings) (r : Running σ) :
    Option ReportCard × Running σ :=
  match r.putFiles engine a.files readings.fileTime with
  | (.error e, r) => (some (ReportCard.fresh.fail s!"uploading files: {e.message}"), r)
  | (.ok (), r) => Grading.run engine a.action readings.elapsed .fresh r

/-- Emits the files that the problem asks to have sent back. -/
def download (engine : Engine σ) (patterns : List String) (r : Running σ) : Running σ :=
  if patterns.isEmpty then r
  else
    match r.getFiles engine patterns with
    | (.ok files, r) => r.emit [.files files]
    | (.error _, r) => r

/-- All that happens in a sandbox, up to its removal or to a command that never ends. -/
def perform (engine : Engine σ) (a : Admitted) (readings : Readings) (r : Running σ) :
    Option ReportCard × Running σ :=
  match grade engine a readings r with
  | (none, r) => (none, r)
  | (some card, r) => (some card, (download engine a.problem.downloadPatterns r).shutDown engine)

def entries (readings : Readings) (events : List Event) : List Entry :=
  events.zipIdx.map fun (event, i) => ⟨readings.entryTime i, event⟩

/-- The commit that goes back: with its record, its card and score, and the time of the session. -/
def gradedCommit (commit : Commit) (record : List Entry) (card : ReportCard) (started : Instant) :
    Commit :=
  { commit with
    transcript := record
    reportCard := some card
    score := card.score
    updatedAt := started }

/-- The signed bundle of a graded action. -/
def gradedBundle (host : Host) (a : Admitted) (record : List Entry) (card : ReportCard)
    (started : Instant) : Bundle :=
  (a.bundleAround (gradedCommit a.commit record card started)).signCommit host.secret

/-- Ends a session with an error frame. -/
def abort (message : String) (sink : Sink) : State × Sink :=
  (.aborted, sink.finish (.ofError message))

/-- The record of a session before its first event. -/
def emptyRecord (host : Host) : Transcript where
  dataLimit := host.dataLimit
  entryLimit := host.entryLimit

/-- The events, passed on to the client and recorded. -/
def relayed (host : Host) (readings : Readings) (events : List Event) (sink : Sink) : Relay :=
  ({ sink, transcript := emptyRecord host } : Relay).passAll (entries readings events)

/-- Answers with the events, and with the bundle when the action is graded. -/
def respond (host : Host) (route : Route) (a : Admitted) (readings : Readings) (card : ReportCard)
    (events : List Event) (sink : Sink) : State × Sink :=
  let relay := relayed host readings events sink
  let sink :=
    if route.action = gradedAction then
      relay.sink.finish
        (.ofBundle (gradedBundle host a relay.transcript.entries card readings.started))
    else relay.sink.close
  (.responded, sink)

/-- Runs an admitted action that has a slot. While its command runs, the client has the events so far. -/
def attend (engine : Engine σ) (host : Host) (route : Route) (a : Admitted) (readings : Readings)
    (sink : Sink) (w : World σ) : (State × Sink) × World σ :=
  match Sandbox.create engine (order a) readings.draw w with
  | (.error e, w) => (abort s!"creating container: {e.message}" sink, w)
  | (.ok sandbox, world) =>
    match perform engine a readings { sandbox, world } with
    | (none, r) => ((.executing, (relayed host readings r.events sink).sink), r.world)
    | (some card, r) => (respond host route a readings card r.events sink, r.leave)

/-- The admitted parts of a request, or the text of its refusal. -/
def admission (host : Host) (route : Route) (started : Instant) (request : Request) :
    Except AdmissionError Admitted :=
  match request.bundle with
  | none => .error (.missing "commit bundle")
  | some bundle => Bundle.admission bundle route host.secret host.hostname started

/-- Runs the session of a number to its end, or until it waits for a slot or for a command without end, which
keeps its slot. -/
def run (engine : Engine σ) (host : Host) (number : Nat) (route : Route) (request : Request)
    (readings : Readings) (sink : Sink) (s : Host.State σ) : (State × Sink) × Host.State σ :=
  match admission host route readings.started request with
  | .error e => (abort e.message sink, s)
  | .ok a =>
    let slots := s.slots.acquire number
    if number ∈ slots.held then
      let (answer, world) := attend engine host route a readings sink s.world
      (answer, { slots := if answer.1 = .executing then slots else slots.release number, world })
    else ((.waiting, sink), { s with slots })

end Session

end Proctor
