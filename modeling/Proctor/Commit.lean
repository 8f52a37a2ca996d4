import Proctor.Event
import Proctor.Problem
import Proctor.Report.Card

/-!
Commits, one submission each for one step of a problem, and the context that a commit signature
binds them to.
-/

namespace Proctor

structure Commit where
  id : Int := 0
  assignmentId : Int := 0
  problemId : Int := 0
  step : Int
  action : String
  note : String := ""
  files : KeyMap Bytes := .empty
  transcript : List Entry := []
  reportCard : Option ReportCard := none
  score : Binary64 := .zero
  createdAt : Instant
  updatedAt : Instant
  deriving DecidableEq, Repr

/-- What a commit signature covers besides the commit. -/
structure CommitContext where
  problemTypeSignature : String
  problemSignature : String
  hostname : String
  userId : Int
  deriving DecidableEq, Repr

namespace Commit

def keys : List String :=
  ["id", "assignmentID", "problemID", "step", "action", "note", "files", "transcript", "reportCard",
    "score", "createdAt", "updatedAt"]

/-- Reads a commit that has `depth` containers around it. -/
def ofJson? (depth : Nat) (j : Json) : Option Commit := do
  match ← Json.fields? keys j with
  | [id, assignmentId, problemId, step, action, note, files, transcript, reportCard, score,
      createdAt, updatedAt] =>
    some {
      id := ← Json.defaulted 0 Json.asInteger? id
      assignmentId := ← Json.defaulted 0 Json.asInteger? assignmentId
      problemId := ← Json.defaulted 0 Json.asInteger? problemId
      step := ← Json.required Json.asInteger? step
      action := ← Json.required Json.asText? action
      note := ← Json.defaulted "" Json.asText? note
      files := ← Json.defaulted .empty Json.asFiles? files
      transcript := ← Json.defaulted [] (Json.asList? (Entry.ofJson? (depth + 2))) transcript
      reportCard := ← Json.defaulted none (Json.asNullable? ReportCard.ofJson?) reportCard
      score := ← Json.defaulted .zero Json.asBinary64? score
      createdAt := ← Json.required Json.asInstant? createdAt
      updatedAt := ← Json.required Json.asInstant? updatedAt }
  | _ => none

def toJson (c : Commit) : Json :=
  .ofPairs <|
    [("id", .integer c.id), ("assignmentID", .integer c.assignmentId),
      ("problemID", .integer c.problemId), ("step", .integer c.step), ("action", .text c.action)] ++
    Json.memberUnless c.note.isEmpty "note" (.text c.note) ++
    [("files", Json.ofFiles c.files)] ++
    Json.memberUnless c.transcript.isEmpty "transcript" (.array (c.transcript.map Entry.toJson)) ++
    [("reportCard", (c.reportCard.map ReportCard.toJson).getD .null),
      ("score", Json.ofBinary64 c.score), ("createdAt", Json.ofInstant c.createdAt),
      ("updatedAt", Json.ofInstant c.updatedAt)]

/-- The line of an event, and the contents of the files that it carries. -/
def addEntry (f : Signature.Fields) (entry : Entry × Nat) : Signature.Fields :=
  let stem := s!"transcript-{Decimal.text entry.2}"
  let f := f.addText stem entry.1.event.describe
  match entry.1.event with
  | .files files => f.addFiles (stem ++ "-file-") files
  | _ => f

/-- Empty details and an empty context have no field. -/
def addResult (f : Signature.Fields) (result : TestResult × Nat) : Signature.Fields :=
  let stem := s!"reportcard-{Decimal.text result.2}-"
  let r := result.1
  f.addTexts <|
    [(stem ++ "name", r.name), (stem ++ "outcome", r.outcome.name)] ++
    (if r.details.isEmpty then [] else [(stem ++ "details", r.details)]) ++
    (if r.context.isEmpty then [] else [(stem ++ "context", r.context)])

def addCard (f : Signature.Fields) (card : ReportCard) : Signature.Fields :=
  let f := f.addTexts [
    ("reportcard-passed", Action.boolText card.passed), ("reportcard-note", card.note)]
  card.results.zipIdx.foldl addResult f

def signedFields (c : Commit) (context : CommitContext) : Signature.Fields :=
  let f := Signature.Fields.empty.addTexts [
    ("id", Decimal.signedText c.id), ("assignment_id", Decimal.signedText c.assignmentId),
    ("problem_id", Decimal.signedText c.problemId), ("step", Decimal.signedText c.step),
    ("action", c.action), ("note", c.note)]
  let f := f.addFiles "file-" c.files
  let f := c.transcript.zipIdx.foldl addEntry f
  let f := match c.reportCard with
    | some card => addCard f card
    | none => f
  let f := f.addText "score" c.score.plainText
  let f := (f.addTime "created_at" c.createdAt).addTime "updated_at" c.updatedAt
  f.addTexts [
    ("problem_type_signature", context.problemTypeSignature),
    ("problem_signature", context.problemSignature), ("daycare_host", context.hostname),
    ("user_id", Decimal.signedText context.userId)]

def sign (c : Commit) (context : CommitContext) (secret : Bytes) : String :=
  (c.signedFields context).sign secret

def verify (c : Commit) (context : CommitContext) (secret : Bytes) (signature : String) :
    Except SignatureError Unit :=
  (c.signedFields context).verify secret signature "commit"

end Commit

end Proctor
