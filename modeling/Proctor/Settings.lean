import Proctor.Base64
import Proctor.Host
import Proctor.Problem
import Proctor.Settings.Arguments
import Proctor.Text.Blank

/-!
Settings of a host, from its command line and its environment, and the checks before it starts.
-/

namespace Proctor

inductive SecretError
  | notBase64
  | empty
  deriving DecidableEq, Repr

def SecretError.message : SecretError → String
  | .notBase64 => "DAYCARE_SECRET is not valid base64"
  | .empty => "daycare secret is required (set DAYCARE_SECRET)"

/-- What is wrong with an address to listen on. -/
inductive AddressError
  | noPort
  | invalidPort
  deriving DecidableEq, Repr

def AddressError.message : AddressError → String
  | .noPort => "invalid socket address"
  | .invalidPort => "invalid port value"

/-- Why a host does not start. -/
inductive StartError
  | secret (error : SecretError)
  | noCapacity
  | noProblemTypes
  | address (error : AddressError)
  deriving DecidableEq, Repr

def StartError.message : StartError → String
  | .secret error => error.message
  | .noCapacity => "capacity must be at least 1"
  | .noProblemTypes => "at least one problem type is required (set DAYCARE_PROBLEM_TYPES)"
  | .address error => error.message

structure Settings where
  listen : String
  hostname : String
  authorityUrl : String
  secret : String
  capacity : Nat
  problemTypes : List String
  docker : String
  heartbeatSecs : Nat
  deriving DecidableEq, Repr

namespace Settings

/-- A secret is text, or bytes in base64 behind `base64:`. -/
def decodeSecret (raw : String) : Except SecretError Bytes :=
  let bytes? := match raw.toList with
    | 'b' :: 'a' :: 's' :: 'e' :: '6' :: '4' :: ':' :: encoded =>
      Base64.decodeChars? (Text.trimChars encoded)
    | _ => some (Utf8.encode raw)
  match bytes? with
  | none => .error .notBase64
  | some [] => .error .empty
  | some bytes => .ok bytes

/-- The values of a setting: those of arguments, else that of its variable, else its default. -/
def valuesOf (a : Arguments) (environment : String → Option String) (s : Setting) :
    Except UsageError (List String) :=
  match a.valuesOf s with
  | value :: values => .ok (value :: values)
  | [] =>
    match environment s.variableName with
    | some value => if s.accepts value then .ok [value] else .error (.invalidValue s value)
    | none => .ok s.default?.toList

def valueOf (a : Arguments) (environment : String → Option String) (s : Setting) :
    Except UsageError String := do
  match ← valuesOf a environment s with
  | value :: _ => .ok value
  | [] => .error (.required s)

/-- The value of a setting as a number. -/
def numberOf (read? : String → Option Nat) (a : Arguments) (environment : String → Option String)
    (s : Setting) : Except UsageError Nat := do
  let value ← valueOf a environment s
  match read? value with
  | some n => .ok n
  | none => .error (.invalidValue s value)

def ofArguments (a : Arguments) (environment : String → Option String) :
    Except UsageError Settings := do
  .ok {
    listen := ← valueOf a environment .listen
    hostname := ← valueOf a environment .hostname
    authorityUrl := ← valueOf a environment .authorityUrl
    secret := ← valueOf a environment .secret
    capacity := ← numberOf Setting.capacity? a environment .capacity
    problemTypes := (← valuesOf a environment .problemTypes).flatMap Problem.splitCommas
    docker := ← valueOf a environment .docker
    heartbeatSecs := ← numberOf Setting.seconds? a environment .heartbeatSecs }

/-- The settings on a command line; none when it asks for help. -/
def read (arguments : List String) (environment : String → Option String) :
    Except UsageError (Option Settings) := do
  match ← Arguments.read arguments with
  | none => .ok none
  | some a => some <$> ofArguments a environment

def portBound : Nat := UInt16.size

/-- An address ends in a colon and a port. -/
def checkAddress (listen : String) : Except AddressError Unit :=
  let cs := listen.toList
  if ':' ∉ cs then .error .noPort
  else
    let port := String.ofList (cs.reverse.takeWhile (· ≠ ':')).reverse
    if (Decimal.read? portBound port).isSome then .ok () else .error .invalidPort

/-- A host that may start: what it is, and the problem types that it offers. -/
structure Ready where
  host : Host
  problemTypes : List String
  deriving DecidableEq, Repr

/-- The names of problem types, trimmed, without empty ones. -/
def offered (s : Settings) : List String :=
  (s.problemTypes.map Text.trim).filter (!·.isEmpty)

/-- Checks the secret, the capacity, the problem types and the address, in this order. -/
def start (s : Settings) : Except StartError Ready := do
  let secret ← (decodeSecret s.secret).mapError .secret
  if s.capacity = 0 then .error .noCapacity
  else if s.offered.isEmpty then .error .noProblemTypes
  else
    (checkAddress s.listen).mapError .address
    .ok { host := { secret, hostname := s.hostname, authority := s.authorityUrl },
          problemTypes := s.offered }

end Settings

/-- What comes of a command line. -/
inductive Startup
  | help
  | misused (error : UsageError)
  | failed (error : StartError)
  | ready (settings : Settings) (ready : Settings.Ready)
  deriving DecidableEq, Repr

namespace Startup

def ofCommandLine (arguments : List String) (environment : String → Option String) : Startup :=
  match Settings.read arguments environment with
  | .error e => .misused e
  | .ok none => .help
  | .ok (some settings) =>
    match settings.start with
    | .error e => .failed e
    | .ok checked => .ready settings checked

/-- The exit status of a program that cannot go on. -/
def status : Startup → Nat
  | .help => 0
  | .misused _ => 2
  | .failed _ => 1
  | .ready .. => 0

/-- The first line of the errors of a host that does not start. -/
def errorLine? : Startup → Option String
  | .failed error => some s!"Error: {error.message}"
  | _ => none

end Startup

end Proctor
