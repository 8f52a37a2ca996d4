import Proctor.Engine
import Proctor.Glob
import Proctor.Uids

/-!
A sandbox: one container with a user id of its own, from its creation to its removal. Everything that
happens in it is emitted as events.
-/

namespace Proctor

/-- What sandboxes of one host share: the engine and the user ids. -/
structure World (σ : Type) where
  engine : σ
  uids : Uids

structure Sandbox where
  name : String
  uid : Nat
  timeout : Nat
  snapshot : Option (KeyMap Bytes) := none
  closed : Bool := false
  deriving DecidableEq, Repr

/-- A sandbox in its world, and the events that it emitted. -/
structure Running (σ : Type) where
  sandbox : Sandbox
  world : World σ
  events : List Event := []

/-- What a command wrote, and how it ended. -/
structure Output where
  status : Int
  stdout : Bytes
  stderr : Bytes
  deriving DecidableEq, Repr

namespace Sandbox

variable {σ : Type}

/-- What to run in a sandbox. -/
structure Order where
  name : String
  image : String
  limits : Limits
  interactive : Bool
  deriving DecidableEq, Repr

def Order.container (o : Order) (uid : Nat) : Container :=
  ⟨o.name, o.image, uid, o.limits, o.interactive⟩

/-- Creates a container. One that has its name is removed first, and then creation is tried once
more. -/
def createContainer (engine : Engine σ) (c : Container) (s : σ) : Except EngineError Unit × σ :=
  match engine.create c s with
  | (.error (.nameInUse name), s) => engine.create c (engine.remove name s).2
  | result => result

/-- A new sandbox, with a user id that is given back when there is no container. -/
def create (engine : Engine σ) (o : Order) (draw : Nat) (w : World σ) :
    Except EngineError Sandbox × World σ :=
  match w.uids.reserve? draw with
  | none => (.error .uidsExhausted, w)
  | some (uid, uids) =>
    match createContainer engine (o.container uid) w.engine with
    | (.ok (), s) =>
      (.ok { name := o.name, uid, timeout := o.limits.timeout }, { engine := s, uids })
    | (.error e, s) => (.error e, { engine := s, uids := uids.release uid })

end Sandbox

namespace Running

variable {σ : Type}

def emit (events : List Event) (r : Running σ) : Running σ :=
  { r with events := r.events ++ events }

def shutDownError (r : Running σ) : EngineError :=
  .shutDown r.sandbox.name

/-- Copies files into the home directory; no files are copied into any sandbox. -/
def putFiles (engine : Engine σ) (files : KeyMap Bytes) (mtime : Nat) (r : Running σ) :
    Except EngineError Unit × Running σ :=
  if files.isEmpty then (.ok (), r)
  else if r.sandbox.closed then (.error r.shutDownError, r)
  else
    match packed files r.sandbox.uid mtime with
    | .error e => (.error e, r)
    | .ok archive =>
      let (result, s) := engine.copyIn r.sandbox.name r.sandbox.uid archive r.world.engine
      (result, { r with world := { r.world with engine := s } })

/-- Removes the container and gives back its user id; a second time does nothing. -/
def shutDown (engine : Engine σ) (r : Running σ) : Running σ :=
  if r.sandbox.closed then r
  else
    { r with
      sandbox := { r.sandbox with closed := true }
      world := {
        engine := (engine.remove r.sandbox.name r.world.engine).2
        uids := r.world.uids.release r.sandbox.uid } }

/-- Runs a command. One that is still running when its time is up shuts the sandbox down; without a time
limit, which is a limit of zero, it runs on, and there is no result. -/
def exec (engine : Engine σ) (command : List String) (r : Running σ) :
    Option (Except EngineError Output) × Running σ :=
  if r.sandbox.closed then (some (.error r.shutDownError), r)
  else
    let (e, s) := engine.exec r.sandbox.name r.sandbox.uid command r.world.engine
    let r := { r with world := { r.world with engine := s } }
    let r := r.emit (.exec command :: e.chunks.map Chunk.event)
    match e.ending with
    | .exited status =>
      (some (.ok ⟨status, e.output .stdout, e.output .stderr⟩), r.emit [.exit status])
    | .failed error => (some (.error error), r)
    | .running =>
      if r.sandbox.timeout = 0 then (none, r)
      else (some (.error (.timedOut r.sandbox.timeout)), r.shutDown engine)

/-- Files that one of the patterns accepts; malformed patterns accept none. -/
def select (patterns : List String) (files : KeyMap Bytes) : KeyMap Bytes :=
  let patterns := patterns.filterMap Glob.parse?
  files.filter fun name _ => patterns.any fun p => Glob.accepts p name

/-- Takes the home directory from the place where the sandbox keeps it, or else copies it out of the
container. -/
def takeHome (engine : Engine σ) (r : Running σ) : Except EngineError (KeyMap Bytes) × Running σ :=
  match r.sandbox.snapshot with
  | some files => (.ok files, { r with sandbox := { r.sandbox with snapshot := none } })
  | none =>
    if r.sandbox.closed then (.error r.shutDownError, r)
    else
      let (archive, s) := engine.copyOut r.sandbox.name r.sandbox.uid r.world.engine
      (archive.bind unpacked, { r with world := { r.world with engine := s } })

def keepHome (files : KeyMap Bytes) (r : Running σ) : Running σ :=
  { r with sandbox := { r.sandbox with snapshot := some files } }

/-- Files of the home directory as it was when it was first asked for, also after the sandbox is
closed. -/
def getFiles (engine : Engine σ) (patterns : List String) (r : Running σ) :
    Except EngineError (KeyMap Bytes) × Running σ :=
  if patterns.isEmpty then (.ok .empty, r)
  else
    match r.takeHome engine with
    | (.error e, r) => (.error e, r)
    | (.ok files, r) => (.ok (select patterns files), r.keepHome files)

/-- Leaves a sandbox; one that is still open keeps its container but not its user id. -/
def leave (r : Running σ) : World σ :=
  if r.sandbox.closed then r.world
  else { r.world with uids := r.world.uids.release r.sandbox.uid }

end Running

end Proctor
