import Proctor.Decimal

/-!
The command line of a host: named settings, each with a value after it or behind an equals sign, and
a request for help. Arguments are read from left to right up to the first mistake.
-/

namespace Proctor

inductive Setting
  | listen
  | hostname
  | authorityUrl
  | secret
  | capacity
  | problemTypes
  | docker
  | heartbeatSecs
  deriving DecidableEq, Repr

inductive UsageError
  | unexpected (argument : String)
  | unneededValue (argument : String)
  | missingValue (setting : Setting)
  | repeated (setting : Setting)
  | invalidValue (setting : Setting) (value : String)
  | required (setting : Setting)
  deriving DecidableEq, Repr

namespace Setting

def all : List Setting :=
  [listen, hostname, authorityUrl, secret, capacity, problemTypes, docker, heartbeatSecs]

def name : Setting → String
  | .listen => "listen"
  | .hostname => "hostname"
  | .authorityUrl => "authority-url"
  | .secret => "secret"
  | .capacity => "capacity"
  | .problemTypes => "problem-types"
  | .docker => "docker"
  | .heartbeatSecs => "heartbeat-secs"

def ofName? (name : String) : Option Setting :=
  all.find? (·.name = name)

/-- The environment variable that is used where no argument gives a value. -/
def variableName : Setting → String
  | .listen => "DAYCARE_LISTEN"
  | .hostname => "DAYCARE_HOSTNAME"
  | .authorityUrl => "DAYCARE_AUTHORITY_URL"
  | .secret => "DAYCARE_SECRET"
  | .capacity => "DAYCARE_CAPACITY"
  | .problemTypes => "DAYCARE_PROBLEM_TYPES"
  | .docker => "DAYCARE_DOCKER"
  | .heartbeatSecs => "DAYCARE_HEARTBEAT_SECS"

/-- The value without argument and variable. Problem types are none then, and the other settings
without one are required. -/
def default? : Setting → Option String
  | .listen => some "0.0.0.0:8080"
  | .capacity => some "1"
  | .docker => some "docker"
  | .heartbeatSecs => some "10"
  | _ => none

/-- Only the problem types may be given more than once, and then add up. -/
def isRepeatable (s : Setting) : Bool :=
  s = problemTypes

def capacityBound : Nat := UInt32.size

def secondsBound : Nat := UInt64.size

/-- A capacity may have either sign in front of it, but is not negative. -/
def capacity? (value : String) : Option Nat :=
  match value.toList with
  | '-' :: digits =>
    match Decimal.digits? digits with
    | some (d :: ds) => if Decimal.value (d :: ds) = 0 then some 0 else none
    | _ => none
  | _ => Decimal.read? capacityBound value

def seconds? (value : String) : Option Nat :=
  Decimal.read? secondsBound value

def accepts (s : Setting) (value : String) : Bool :=
  match s with
  | .capacity => (capacity? value).isSome
  | .heartbeatSecs => (seconds? value).isSome
  | _ => true

end Setting

def UsageError.message : UsageError → String
  | .unexpected argument => s!"unexpected argument '{argument}'"
  | .unneededValue argument => s!"unexpected value in '{argument}'"
  | .missingValue setting => s!"a value is required for '--{setting.name}'"
  | .repeated setting => s!"'--{setting.name}' cannot be used more than once"
  | .invalidValue setting value => s!"invalid value '{value}' for '--{setting.name}'"
  | .required setting => s!"'--{setting.name}' is required"

/-- The form of an argument. -/
inductive Argument
  | terminator
  | named (name : String) (value : Option String)
  | letters (letters : List Char)
  | plain
  deriving DecidableEq, Repr

namespace Argument

/-- A name and what follows the first equals sign behind it. -/
def ofNamed (cs : List Char) : Argument :=
  let name := cs.takeWhile (· ≠ '=')
  match cs.drop name.length with
  | _ :: value => .named (String.ofList name) (some (String.ofList value))
  | [] => .named (String.ofList name) none

def ofText (text : String) : Argument :=
  match text.toList with
  | ['-', '-'] => .terminator
  | '-' :: '-' :: cs => ofNamed cs
  | '-' :: c :: cs => .letters (c :: cs)
  | _ => .plain

end Argument

/-- The values on a command line, in their order. -/
structure Arguments where
  values : List (Setting × String) := []
  deriving DecidableEq, Repr

namespace Arguments

def valuesOf (a : Arguments) (s : Setting) : List String :=
  (a.values.filter (·.1 = s)).map (·.2)

def add (a : Arguments) (s : Setting) (value : String) : Except UsageError Arguments :=
  if a.valuesOf s ≠ [] ∧ ¬s.isRepeatable then .error (.repeated s)
  else if s.accepts value then .ok ⟨a.values ++ [(s, value)]⟩
  else .error (.invalidValue s value)

/-- Fails for a setting that still waits for its value. -/
def settle (waiting : Option Setting) : Except UsageError Unit :=
  match waiting with
  | some s => .error (.missingValue s)
  | none => .ok ()

/-- Reads the arguments after those of `a`, of which the last setting may wait for its value. None
stands for a request for help. -/
def readAfter (a : Arguments) (waiting : Option Setting) :
    List String → Except UsageError (Option Arguments)
  | [] => do
    settle waiting
    .ok (some a)
  | text :: rest =>
    match Argument.ofText text, waiting with
    | .terminator, _ =>
      match rest with
      | [] => do
        settle waiting
        .ok (some a)
      | next :: _ => .error (.unexpected next)
    | .named name value, _ =>
      match Setting.ofName? name, value with
      | some s, none => do
        settle waiting
        readAfter a (some s) rest
      | some s, some value => do
        settle waiting
        readAfter (← a.add s value) none rest
      | none, none => do
        if name = "help" then
          settle waiting
          .ok none
        else .error (.unexpected text)
      | none, some _ =>
        if name = "help" then .error (.unneededValue text) else .error (.unexpected text)
    | .letters letters, _ => do
      if letters.head? = some 'h' then
        settle waiting
        .ok none
      else .error (.unexpected text)
    | .plain, some s => do readAfter (← a.add s text) none rest
    | .plain, none => .error (.unexpected text)

def read (arguments : List String) : Except UsageError (Option Arguments) :=
  readAfter {} none arguments

end Arguments

end Proctor
