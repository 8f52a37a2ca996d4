import Proctor.Json.Record
import Proctor.Text.Blank

/-!
Ceilings on the resources of one sandbox, and the options of a problem that override them.
-/

namespace Proctor

/-- Times are in seconds and sizes in mebibytes. -/
structure Limits where
  cpu : Nat := 0
  session : Nat := 0
  timeout : Nat := 0
  descriptors : Nat := 0
  fileSize : Nat := 0
  memory : Nat := 0
  threads : Nat := 0
  deriving DecidableEq, Repr

namespace Limits

def bound : Nat := UInt64.size

def keys : List String :=
  ["maxCPU", "maxSession", "maxTimeout", "maxFD", "maxFileSize", "maxMemory", "maxThreads"]

def values (l : Limits) : List Nat :=
  [l.cpu, l.session, l.timeout, l.descriptors, l.fileSize, l.memory, l.threads]

def ofFields? : List (Option Json) → Option Limits
  | [cpu, session, timeout, descriptors, fileSize, memory, threads] => do
    let read := Json.defaulted 0 (Json.asNatural? bound)
    some {
      cpu := ← read cpu
      session := ← read session
      timeout := ← read timeout
      descriptors := ← read descriptors
      fileSize := ← read fileSize
      memory := ← read memory
      threads := ← read threads }
  | _ => none

def ofJson? (j : Json) : Option Limits :=
  (Json.fields? keys j).bind ofFields?

def members (l : Limits) : List (String × Json) :=
  keys.zip (l.values.map Json.natural)

def toJson (l : Limits) : Json :=
  .ofPairs l.members

/-- The limits with one of them set, none when there is no limit of that name. -/
def set? (l : Limits) (key : String) (value : Nat) : Option Limits :=
  if key = "maxCPU" then some { l with cpu := value }
  else if key = "maxSession" then some { l with session := value }
  else if key = "maxTimeout" then some { l with timeout := value }
  else if key = "maxFD" then some { l with descriptors := value }
  else if key = "maxFileSize" then some { l with fileSize := value }
  else if key = "maxMemory" then some { l with memory := value }
  else if key = "maxThreads" then some { l with threads := value }
  else none

end Limits

/-- A text split at its first `=`. -/
def splitOption (option : String) : Option (String × String) :=
  let cs := option.toList
  match cs.dropWhile (· ≠ '=') with
  | [] => none
  | _ :: value => some (String.ofList (cs.takeWhile (· ≠ '=')), String.ofList value)

namespace Limits

/-- Applies one option `limit=number`, both sides trimmed. The flag tells whether the option names a
limit but gives no number; such an option changes nothing, and neither does any other option. -/
def applyOption (l : Limits) (option : String) : Limits × Bool :=
  match splitOption option with
  | none => (l, false)
  | some (key, value) =>
    let key := Text.trim key
    if keys.contains key then
      match Decimal.read? bound (Text.trim value) with
      | some n => ((l.set? key n).getD l, false)
      | none => (l, true)
    else (l, false)

/-- Applies options in order; the second part lists those that name a limit without a number. -/
def applyOptions (l : Limits) : List String → Limits × List String
  | [] => (l, [])
  | option :: options =>
    let (l, ignored) := l.applyOption option
    let (l, rest) := l.applyOptions options
    (l, if ignored then option :: rest else rest)

end Limits

end Proctor
