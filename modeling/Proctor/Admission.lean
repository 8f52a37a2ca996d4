import Proctor.Bundle

/-!
Admission of a bundle: whether its action may run on this host now. The checks go from the parts that
must be there, over the route, the three signatures, the host and the age, to the step; the first
that fails gives the error.
-/

namespace Proctor

/-- The problem type and the action that a socket was opened for. -/
structure Route where
  problemType : String
  action : String
  deriving DecidableEq, Repr

inductive AdmissionError
  | missing (part : String)
  | invalidUser (userId : Int)
  | problemTypeMismatch (route bundle : String)
  | unknownAction (problemType action : String)
  | signature (error : SignatureError)
  | wrongHost (bundle here : String)
  | stale (seconds : Nat)
  | actionMismatch (commit route : String)
  | stepOutOfRange (step : Int) (steps : Nat)
  | stepNumberMismatch (position declared : Int)
  | stepTypeMismatch (step : Int) (found expected : String)
  deriving DecidableEq, Repr

open Text in
def AdmissionError.message : AdmissionError → String
  | .missing part => s!"request is missing the {part}"
  | .invalidUser userId => s!"invalid user id {Decimal.signedText userId}"
  | .problemTypeMismatch route bundle =>
    s!"problem type {quoted route} in the URL does not match the bundle's {quoted bundle}"
  | .unknownAction problemType action =>
    s!"problem type {quoted problemType} has no action {quoted action}"
  | .signature error => error.message
  | .wrongHost bundle here =>
    s!"commit bundle is signed for host {quoted bundle}, not {quoted here}"
  | .stale seconds => s!"commit timestamp is {Decimal.text seconds}s away from now"
  | .actionMismatch commit route =>
    s!"commit action {quoted commit} does not match the URL action {quoted route}"
  | .stepOutOfRange step steps =>
    s!"commit step {Decimal.signedText step} is out of range for a problem with " ++
      s!"{Decimal.text steps} steps"
  | .stepNumberMismatch position declared =>
    s!"problem step {Decimal.signedText position} is numbered {Decimal.signedText declared}"
  | .stepTypeMismatch step found expected =>
    s!"step {Decimal.signedText step} has problem type {quoted found}, expected {quoted expected}"

/-- The parts of a bundle whose action may run, the step and the action looked up. -/
structure Admitted where
  problemType : ProblemType
  problemTypeSignature : String
  problem : Problem
  steps : List Step
  problemSignature : String
  hostname : String
  userId : Int
  commit : Commit
  action : Action
  step : Step
  deriving DecidableEq, Repr

namespace Admitted

/-- Files of the step, then those of the commit, then the templates; later ones replace earlier ones
of the same path. -/
def files (a : Admitted) : KeyMap Bytes :=
  (a.step.files.union a.commit.files).union a.problemType.files

/-- The limits of the action with the options of the problem applied. -/
def limits (a : Admitted) : Limits :=
  (a.action.limits.applyOptions a.problem.options).1

/-- The bundle around another commit, which is not signed yet. -/
def bundleAround (a : Admitted) (commit : Commit) : Bundle where
  problemType := some a.problemType
  problemTypeSignature := a.problemTypeSignature
  problem := some a.problem
  steps := a.steps
  problemSignature := a.problemSignature
  hostname := a.hostname
  userId := a.userId
  commit := some commit

end Admitted

namespace Bundle

/-- Seconds by which a commit may be older or newer than the clock. -/
def maxAge : Nat := 900

/-- The whole seconds between two times, whichever is later. -/
def distance (a b : Instant) : Nat :=
  (a.secondsSince b).natAbs

def demand (condition : Prop) [Decidable condition] (error : AdmissionError) :
    Except AdmissionError Unit :=
  if condition then .ok () else .error error

def part (value : Option α) (name : String) : Except AdmissionError α :=
  match value with
  | some a => .ok a
  | none => .error (.missing name)

def checkSignature (result : Except SignatureError Unit) : Except AdmissionError Unit :=
  result.mapError .signature

/-- The step at a position that counts from one. -/
def stepAt? (steps : List Step) (position : Int) : Option Step :=
  if 1 ≤ position then steps[position.toNat - 1]? else none

def admission (b : Bundle) (route : Route) (secret : Bytes) (hostname : String) (now : Instant) :
    Except AdmissionError Admitted := do
  let problemType ← part b.problemType "problem type"
  demand (b.problemTypeSignature ≠ "") (.missing "problem type signature")
  let problem ← part b.problem "problem"
  demand (b.steps ≠ []) (.missing "problem steps")
  demand (b.problemSignature ≠ "") (.missing "problem signature")
  let commit ← part b.commit "commit"
  demand (b.commitSignature ≠ "") (.missing "commit signature")
  demand (b.hostname ≠ "") (.missing "hostname")
  demand (1 ≤ b.userId) (.invalidUser b.userId)
  demand (route.problemType = problemType.name)
    (.problemTypeMismatch route.problemType problemType.name)
  let action ← match problemType.actions.find? route.action with
    | some action => .ok action
    | none => .error (.unknownAction problemType.name route.action)
  checkSignature (problemType.verify secret b.problemTypeSignature)
  checkSignature (problem.verify b.steps secret b.problemSignature)
  checkSignature (commit.verify b.context secret b.commitSignature)
  demand (b.hostname = hostname) (.wrongHost b.hostname hostname)
  let age := distance now commit.updatedAt
  demand (age ≤ maxAge) (.stale age)
  demand (commit.action = route.action) (.actionMismatch commit.action route.action)
  let step ← match stepAt? b.steps commit.step with
    | some step => .ok step
    | none => .error (.stepOutOfRange commit.step b.steps.length)
  demand (step.step = commit.step) (.stepNumberMismatch commit.step step.step)
  demand (step.problemType = problemType.name)
    (.stepTypeMismatch commit.step step.problemType problemType.name)
  .ok {
    problemType, problemTypeSignature := b.problemTypeSignature, problem, steps := b.steps,
    problemSignature := b.problemSignature, hostname := b.hostname, userId := b.userId, commit,
    action, step }

end Bundle

end Proctor
