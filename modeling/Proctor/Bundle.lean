import Proctor.Commit

/-!
Bundles: a commit with everything that is needed to run its action, and three signatures. Parts may
be missing, so that a reader can say which.
-/

namespace Proctor

structure Bundle where
  problemType : Option ProblemType := none
  problemTypeSignature : String := ""
  problem : Option Problem := none
  steps : List Step := []
  problemSignature : String := ""
  hostname : String := ""
  userId : Int := 0
  commit : Option Commit := none
  commitSignature : String := ""
  deriving DecidableEq, Repr

namespace Bundle

def keys : List String :=
  ["problemType", "problemTypeSignature", "problem", "problemSteps", "problemSignature", "hostname",
    "userID", "commit", "commitSignature"]

/-- Reads a bundle that has `depth` containers around it. -/
def ofJson? (depth : Nat) (j : Json) : Option Bundle := do
  match ← Json.fields? keys j with
  | [problemType, problemTypeSignature, problem, steps, problemSignature, hostname, userId, commit,
      commitSignature] =>
    some {
      problemType :=
        ← Json.defaulted none (Json.asNullable? (ProblemType.ofJson? (depth + 1))) problemType
      problemTypeSignature := ← Json.defaulted "" Json.asText? problemTypeSignature
      problem := ← Json.defaulted none (Json.asNullable? Problem.ofJson?) problem
      steps := ← Json.defaulted [] (Json.asList? Step.ofJson?) steps
      problemSignature := ← Json.defaulted "" Json.asText? problemSignature
      hostname := ← Json.defaulted "" Json.asText? hostname
      userId := ← Json.defaulted 0 Json.asInteger? userId
      commit := ← Json.defaulted none (Json.asNullable? (Commit.ofJson? (depth + 1))) commit
      commitSignature := ← Json.defaulted "" Json.asText? commitSignature }
  | _ => none

def present (key : String) (value : Option Json) : List (String × Json) :=
  value.toList.map (key, ·)

def toJson (b : Bundle) : Json :=
  .ofPairs <|
    present "problemType" (b.problemType.map ProblemType.toJson) ++
    Json.memberUnless b.problemTypeSignature.isEmpty "problemTypeSignature"
      (.text b.problemTypeSignature) ++
    present "problem" (b.problem.map Problem.toJson) ++
    [("problemSteps", .array (b.steps.map Step.toJson))] ++
    Json.memberUnless b.problemSignature.isEmpty "problemSignature" (.text b.problemSignature) ++
    [("hostname", .text b.hostname), ("userID", .integer b.userId)] ++
    present "commit" (b.commit.map Commit.toJson) ++
    Json.memberUnless b.commitSignature.isEmpty "commitSignature" (.text b.commitSignature)

/-- The commit signature is bound to the two other signatures, the host and the user. -/
def context (b : Bundle) : CommitContext :=
  ⟨b.problemTypeSignature, b.problemSignature, b.hostname, b.userId⟩

def signProblemType (b : Bundle) (secret : Bytes) : Bundle :=
  match b.problemType with
  | some t => { b with problemTypeSignature := t.sign secret }
  | none => b

def signProblem (b : Bundle) (secret : Bytes) : Bundle :=
  match b.problem with
  | some p => { b with problemSignature := p.sign b.steps secret }
  | none => b

def signCommit (b : Bundle) (secret : Bytes) : Bundle :=
  match b.commit with
  | some c => { b with commitSignature := c.sign b.context secret }
  | none => b

/-- Fills in the signatures of all parts that are there, that of the commit last. -/
def sign (b : Bundle) (secret : Bytes) : Bundle :=
  ((b.signProblemType secret).signProblem secret).signCommit secret

end Bundle

end Proctor
