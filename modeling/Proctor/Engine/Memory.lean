import Proctor.Engine

/-!
An engine that keeps the home directory of each container in memory. It runs no programs: a script
says what each command does, and each operation can be made to fail.
-/

namespace Proctor

/-- What a command does: it removes and writes files, writes output, and ends or goes on. -/
structure Act where
  removes : List String := []
  writes : KeyMap Bytes := .empty
  stdout : Bytes := []
  stderr : Bytes := []
  more : List Chunk := []
  status : Int := 0
  hangs : Bool := false
  deriving DecidableEq, Repr

namespace Act

def home (a : Act) (home : KeyMap Bytes) : KeyMap Bytes :=
  (a.removes.foldl KeyMap.erase home).union a.writes

def chunkOf (channel : Channel) (data : Bytes) : List Chunk :=
  if data.isEmpty then [] else [⟨channel, data⟩]

/-- Output, then errors, each only when there is some, then all other chunks. -/
def chunks (a : Act) : List Chunk :=
  chunkOf .stdout a.stdout ++ chunkOf .stderr a.stderr ++ a.more

end Act

/-- What goes wrong with a call. -/
inductive Mishap
  | command (command : String) (status : Int) (stderr : String)
  | nameInUse
  | notFound
  | io (reason : String)
  deriving DecidableEq, Repr

/-- The error of a call for the container of a name. -/
def Mishap.error (name : String) : Mishap → EngineError
  | .command program status stderr => .command program status stderr
  | .nameInUse => .nameInUse name
  | .notFound => .notFound name
  | .io reason => .io reason

/-- Mishaps for the calls to come, one for each, none where a call goes well. Instead of failing, a
copy may give other bytes than it should. -/
structure Mishaps where
  create : List (Option Mishap) := []
  copyIn : List (Option Mishap) := []
  exec : List (Option Mishap) := []
  execEnd : List (Option Mishap) := []
  copyOut : List (Option (Except Mishap Bytes)) := []
  remove : List (Option Mishap) := []

/-- Homes by container name, a record of what was done, and what is to come: the acts of a script, one
for each command, and that of all commands after it. -/
structure Memory where
  homes : KeyMap (KeyMap Bytes) := .empty
  created : List Container := []
  removed : List String := []
  executed : List (List String) := []
  failsCreate : Bool := false
  failsCopyIn : Bool := false
  hangs : Bool := false
  script : List Act := []
  afterScript : Act := {}
  mishaps : Mishaps := {}

namespace Memory

/-- The mishap of this call and those of the next ones. -/
def draw {α : Type} (calls : List (Option α)) : Option α × List (Option α) :=
  (calls.head?.join, calls.tail)

def unavailable : EngineError := .command "create" 125 "container engine unavailable"

def full : EngineError := .command "copy in" 1 "no space left on device"

def create (c : Container) (m : Memory) : Except EngineError Unit × Memory :=
  if m.failsCreate then (.error unavailable, m)
  else if m.homes.contains c.name then (.error (.nameInUse c.name), m)
  else (.ok (), { m with homes := m.homes.insert c.name .empty, created := m.created ++ [c] })

/-- The archive is read first, then a full disk shows, then a missing container. -/
def copyIn (name : String) (archive : Bytes) (m : Memory) : Except EngineError Unit × Memory :=
  match unpacked archive with
  | .error e => (.error e, m)
  | .ok files =>
    if m.failsCopyIn then (.error full, m)
    else
      match m.homes.find? name with
      | none => (.error (.notFound name), m)
      | some home => (.ok (), { m with homes := m.homes.insert name (home.union files) })

/-- Does the next act of the script, in a container that is there. -/
def exec (name : String) (command : List String) (m : Memory) : Execution × Memory :=
  if m.hangs then ({ ending := .running }, m)
  else
    let act := m.script.head?.getD m.afterScript
    let m := { m with executed := m.executed ++ [command], script := m.script.tail }
    match m.homes.find? name with
    | none => ({ ending := .failed (.notFound name) }, m)
    | some home =>
      ({ chunks := act.chunks, ending := if act.hangs then .running else .exited act.status },
        { m with homes := m.homes.insert name (act.home home) })

def copyOut (name : String) (uid : Nat) (m : Memory) : Except EngineError Bytes × Memory :=
  match m.homes.find? name with
  | none => (.error (.notFound name), m)
  | some home => (packed home uid 0, m)

/-- Removing a container that is not there succeeds. -/
def remove (name : String) (m : Memory) : Except EngineError Unit × Memory :=
  (.ok (), { m with homes := m.homes.erase name, removed := m.removed ++ [name] })

/-- An operation that fails when a mishap says so. -/
def orMishap {α : Type} (name : String) (mishap : Option Mishap)
    (operation : Memory → Except EngineError α × Memory) (m : Memory) :
    Except EngineError α × Memory :=
  match mishap with
  | some mishap => (.error (mishap.error name), m)
  | none => operation m

/-- A command with a mishap at its end, which leaves its output. -/
def execToEnd (name : String) (command : List String) (m : Memory) : Execution × Memory :=
  let (e, m) := exec name command m
  match e.ending with
  | .exited _ =>
    let (mishap, execEnd) := draw m.mishaps.execEnd
    let m := { m with mishaps := { m.mishaps with execEnd } }
    match mishap with
    | some mishap => ({ e with ending := .failed (mishap.error name) }, m)
    | none => (e, m)
  | _ => (e, m)

def engine : Engine Memory where
  create c m :=
    let (mishap, create) := draw m.mishaps.create
    orMishap c.name mishap (Memory.create c) { m with mishaps := { m.mishaps with create } }
  copyIn name _ archive m :=
    let (mishap, copyIn) := draw m.mishaps.copyIn
    orMishap name mishap (Memory.copyIn name archive) { m with mishaps := { m.mishaps with copyIn } }
  exec name _ command m :=
    let (mishap, exec) := draw m.mishaps.exec
    let m := { m with mishaps := { m.mishaps with exec } }
    match mishap with
    | some mishap => ({ ending := .failed (mishap.error name) }, m)
    | none => execToEnd name command m
  copyOut name uid m :=
    let (mishap, copyOut) := draw m.mishaps.copyOut
    let m := { m with mishaps := { m.mishaps with copyOut } }
    match mishap with
    | some (.ok bytes) => (.ok bytes, m)
    | some (.error mishap) => (.error (mishap.error name), m)
    | none => Memory.copyOut name uid m
  remove name m :=
    let (mishap, remove) := draw m.mishaps.remove
    orMishap name mishap (Memory.remove name) { m with mishaps := { m.mishaps with remove } }

end Memory

end Proctor
