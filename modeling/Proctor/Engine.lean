import Proctor.Archive.Pack
import Proctor.Archive.Unpack
import Proctor.Event
import Proctor.Limits

/-!
Container engines: what a host asks of the program that runs its containers, and what that can
answer. An engine is any state with five operations.
-/

namespace Proctor

structure Container where
  name : String
  image : String
  uid : Nat
  limits : Limits
  interactive : Bool
  deriving DecidableEq, Repr

/-- Seconds, in 64 bits, after which a container ends by itself. -/
def Container.deadline (c : Container) : Nat :=
  if c.interactive then c.limits.session else c.limits.cpu * 2 % UInt64.size

inductive EngineError
  | uidsExhausted
  | nameInUse (name : String)
  | cannotRun (program reason : String)
  | command (command : String) (status : Int) (stderr : String)
  | timedOut (seconds : Nat)
  | shutDown (name : String)
  | io (reason : String)
  | notFound (name : String)
  deriving DecidableEq, Repr

def EngineError.message : EngineError → String
  | .uidsExhausted => "more than 1000 container uids in use"
  | .nameInUse name => s!"container name {name} is already in use"
  | .cannotRun program reason => s!"failed to run {program}: {reason}"
  | .command program status stderr =>
    s!"{program} exited with status {Decimal.signedText status}: {stderr}"
  | .timedOut seconds => s!"timed out after {Decimal.text seconds}s"
  | .shutDown name => s!"container {name} has already been shut down"
  | .io reason => s!"io error: {reason}"
  | .notFound name => s!"no such container {name}"

/-- The two streams that a command writes. -/
inductive Channel
  | stdout
  | stderr
  deriving DecidableEq, Repr

def Channel.stream : Channel → Stream
  | .stdout => .stdout
  | .stderr => .stderr

/-- A piece of output, as it arrives. -/
structure Chunk where
  channel : Channel
  data : Bytes
  deriving DecidableEq, Repr

def Chunk.event (c : Chunk) : Event :=
  .stream c.channel.stream c.data

/-- How a command ends: it exits, the engine fails, or it is still running when its time is up. -/
inductive Ending
  | exited (status : Int)
  | failed (error : EngineError)
  | running
  deriving DecidableEq, Repr

structure Execution where
  chunks : List Chunk := []
  ending : Ending
  deriving DecidableEq, Repr

/-- All that was written to one of the streams. -/
def Execution.output (e : Execution) (channel : Channel) : Bytes :=
  ((e.chunks.filter (·.channel = channel)).map (·.data)).flatten

structure Engine (σ : Type) where
  create : Container → σ → Except EngineError Unit × σ
  copyIn : String → Nat → Bytes → σ → Except EngineError Unit × σ
  exec : String → Nat → List String → σ → Execution × σ
  copyOut : String → Nat → σ → Except EngineError Bytes × σ
  remove : String → σ → Except EngineError Unit × σ

def packed (files : KeyMap Bytes) (uid mtime : Nat) : Except EngineError Bytes :=
  (Archive.pack files uid mtime).mapError fun e => .io e.message

def unpacked (archive : Bytes) : Except EngineError (KeyMap Bytes) :=
  (Archive.unpack archive).mapError fun fault => .io fault.message

end Proctor
