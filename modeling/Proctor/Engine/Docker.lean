import Proctor.Engine.Process
import Proctor.Text.Blank

/-!
The engine behind the docker program: each operation is one run of it, and a command that fails is
looked at once more, since its container may be gone.
-/

namespace Proctor

/-- The docker program and how to run it. -/
structure Docker (σ : Type) where
  program : String
  launch : Launcher σ

namespace Docker

/-- The home directory of a container. -/
def home : String := "/home/student"

/-- Capabilities that no container has. -/
def droppedCapabilities : List String :=
  ["NET_RAW", "NET_BIND_SERVICE", "AUDIT_READ", "AUDIT_WRITE", "DAC_OVERRIDE", "SETFCAP", "SETPCAP",
    "SETGID", "SETUID", "MKNOD", "CHOWN", "FOWNER", "FSETID", "KILL", "SYS_CHROOT"]

/-- A number twice, as soft and hard limit or as user and group. -/
def twice (n : Nat) : String :=
  Decimal.text n ++ ":" ++ Decimal.text n

def mebibyte : Nat := 1024 * 1024

/-- A container has no network, and its limits are those of its programs. No limit on open files
means that of the engine; the size of files is a number of bytes in 64 bits. -/
def runArguments (c : Container) : List String :=
  let memory := Decimal.text c.limits.memory ++ "m"
  ["run", "-d", "--name", c.name, "--hostname", c.name, "--network", "none", "--user", twice c.uid,
    "--memory", memory, "--memory-swap", memory, "--pids-limit", Decimal.text c.limits.threads,
    "--ulimit", "core=0", "--ulimit", "cpu=" ++ twice c.limits.cpu,
    "--ulimit", "fsize=" ++ twice (c.limits.fileSize * mebibyte % UInt64.size)] ++
  (if c.limits.descriptors = 0 then [] else ["--ulimit", "nofile=" ++ twice c.limits.descriptors]) ++
  ["-e", "USER=student", "-e", "HOME=" ++ home, "-w", home] ++
  droppedCapabilities.flatMap (["--cap-drop", ·]) ++
  [c.image, "/bin/sleep", Decimal.text c.deadline]

def execArguments (name : String) (uid : Nat) (interactive : Bool) (command : List String) :
    List String :=
  ["exec"] ++ (if interactive then ["-i"] else []) ++ ["-u", twice uid, "-w", home, name] ++ command

/-- What a program says about a failure. -/
def complaint (stderr : Bytes) : String :=
  Text.trim (Utf8.decodeLossy stderr)

/-- The status that an operation reports when a signal ended it. -/
def killed : Int := -1

/-- The output of a run, or an error that names what was run. -/
def outcome (arguments : List String) (reply : Reply) : Except EngineError Bytes :=
  let status := match reply.exit with
    | .code status => (status.toNat : Int)
    | .signal _ => killed
  if status = 0 then .ok (reply.output .stdout)
  else
    let name := "docker " ++ arguments.head?.getD ""
    .error (.command name status (complaint (reply.output .stderr)))

variable {σ : Type}

def run (d : Docker σ) (arguments : List String) (input : Bytes) (s : σ) :
    Except EngineError Bytes × σ :=
  match d.launch arguments input s with
  | (.error reason, s) => (.error (.cannotRun d.program reason), s)
  | (.ok reply, s) => (outcome arguments reply, s)

/-- What the program says when it refuses a name. -/
def nameTaken : String := "is already in use"

/-- Whether a text occurs in another one. -/
def mentions (text : List Char) : List Char → Bool
  | [] => text.isEmpty
  | c :: cs => text.isPrefixOf (c :: cs) || mentions text cs

def create (d : Docker σ) (c : Container) (s : σ) : Except EngineError Unit × σ :=
  match d.run (runArguments c) [] s with
  | (.ok _, s) => (.ok (), s)
  | (.error (.command program status stderr), s) =>
    if mentions nameTaken.toList stderr.toList then (.error (.nameInUse c.name), s)
    else (.error (.command program status stderr), s)
  | (.error e, s) => (.error e, s)

def copyIn (d : Docker σ) (name : String) (uid : Nat) (archive : Bytes) (s : σ) :
    Except EngineError Unit × σ :=
  let (result, s) := d.run (execArguments name uid true ["tar", "x", "-f", "-", "-C", home]) archive s
  (result.map fun _ => (), s)

def copyOut (d : Docker σ) (name : String) (uid : Nat) (s : σ) : Except EngineError Bytes × σ :=
  d.run (execArguments name uid false ["tar", "c", "-f", "-", "-C", home, "."]) [] s

def remove (d : Docker σ) (name : String) (s : σ) : Except EngineError Unit × σ :=
  let (result, s) := d.run ["rm", "-f", name] [] s
  (result.map fun _ => (), s)

def inspectArguments (name : String) : List String :=
  ["inspect", "-f", "\x7b\x7b.State.Running\x7d\x7d", name]

/-- Whether a container is there and running. -/
def isRunning (d : Docker σ) (name : String) (s : σ) : Bool × σ :=
  match d.run (inspectArguments name) [] s with
  | (.ok stdout, s) => (Text.trim (Utf8.decodeLossy stdout) = "true", s)
  | (.error _, s) => (false, s)

/-- Bytes that are read at once at most, and bytes of errors that are kept for a complaint. -/
def readSize : Nat := 8192

/-- The end of what was read so far, with the next piece. -/
def extendTail (tail piece : Bytes) : Bytes :=
  let all := tail ++ piece
  all.drop (all.length - readSize)

/-- The output that was passed on, and the end of each stream. -/
structure Pumped where
  forwarded : List Chunk := []
  tail : Channel → Bytes := fun _ => []

/-- Passes on a piece that was read. -/
def Pumped.read (p : Pumped) (c : Chunk) : Pumped where
  forwarded := p.forwarded ++ [c]
  tail channel := if channel = c.channel then extendTail (p.tail channel) c.data else p.tail channel

/-- Reads both streams to their ends, in the pieces in which they come. -/
def pump (pieces : List Chunk) : Pumped :=
  pieces.foldl Pumped.read {}

/-- The status with which the program itself refuses to run a command. -/
def refused : Int := 125

/-- Tells the status of a command from failures of the engine. A container that is gone after a
failure was lost. -/
def judge (name : String) (status : Int) (errors : Bytes) (running : Bool) : Ending :=
  if status = refused then .failed (.command "docker exec" status (complaint errors))
  else if status ≠ 0 ∧ ¬running then .failed (.notFound name)
  else .exited status

def exec (d : Docker σ) (name : String) (uid : Nat) (command : List String) (s : σ) :
    Execution × σ :=
  match d.launch (execArguments name uid false command) [] s with
  | (.error reason, s) => ({ ending := .failed (.cannotRun d.program reason) }, s)
  | (.ok reply, s) =>
    let pumped := pump reply.chunks
    let status := reply.exit.status
    let (running, s) := if status = 0 then (true, s) else d.isRunning name s
    ({ chunks := pumped.forwarded, ending := judge name status (pumped.tail .stderr) running }, s)

def engine (d : Docker σ) : Engine σ where
  create := d.create
  copyIn := d.copyIn
  exec := d.exec
  copyOut := d.copyOut
  remove := d.remove

end Docker

end Proctor
