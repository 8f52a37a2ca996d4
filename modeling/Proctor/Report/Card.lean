import Proctor.Json.Record

/-!
Report cards: the verdict of a graded action, a note, and one result for each test.
-/

namespace Proctor

inductive Outcome
  | passed
  | failed
  deriving DecidableEq, Repr

def Outcome.name : Outcome → String
  | .passed => "passed"
  | .failed => "failed"

/-- An outcome is its name, or an object whose one member has that name and no value. -/
def Outcome.ofJson? : Json → Option Outcome
  | .text "passed" => some .passed
  | .text "failed" => some .failed
  | .object [(some "passed", .null)] => some .passed
  | .object [(some "failed", .null)] => some .failed
  | _ => none

structure TestResult where
  name : String
  outcome : Outcome
  details : String := ""
  context : String := ""
  deriving DecidableEq, Repr

namespace TestResult

def ofJson? (j : Json) : Option TestResult := do
  match ← Json.fields? ["name", "outcome", "details", "context"] j with
  | [name, outcome, details, context] =>
    some {
      name := ← Json.required Json.asText? name
      outcome := ← Json.required Outcome.ofJson? outcome
      details := ← Json.defaulted "" Json.asText? details
      context := ← Json.defaulted "" Json.asText? context }
  | _ => none

def toJson (r : TestResult) : Json :=
  .ofPairs <|
    [("name", .text r.name), ("outcome", .text r.outcome.name)] ++
    Json.memberUnless r.details.isEmpty "details" (.text r.details) ++
    Json.memberUnless r.context.isEmpty "context" (.text r.context)

end TestResult

structure ReportCard where
  passed : Bool := true
  note : String := ""
  results : List TestResult := []
  deriving DecidableEq, Repr

namespace ReportCard

/-- A card passes until something fails it. -/
def fresh : ReportCard := {}

/-- Fails the card and adds to its note. -/
def fail (c : ReportCard) (note : String) : ReportCard :=
  { c with passed := false, note := if c.note.isEmpty then note else c.note ++ ", " ++ note }

def addPassed (c : ReportCard) (name details : String) : ReportCard :=
  { c with results := c.results ++ [{ name, outcome := .passed, details }] }

/-- A failed test fails the card. -/
def addFailed (c : ReportCard) (name details context : String) : ReportCard :=
  { c with passed := false, results := c.results ++ [{ name, outcome := .failed, details, context }] }

def passedCount (c : ReportCard) : Nat :=
  (c.results.filter (·.outcome = .passed)).length

/-- A passed card earns one; any other card the share of its passed results, and nothing without
results. -/
def score (c : ReportCard) : Binary64 :=
  if c.passed then .one
  else if c.results.isEmpty then .zero
  else .divNat c.passedCount c.results.length

def ofJson? (j : Json) : Option ReportCard := do
  match ← Json.fields? ["passed", "note", "results"] j with
  | [passed, note, results] =>
    some {
      passed := ← Json.required Json.asBool? passed
      note := ← Json.defaulted "" Json.asText? note
      results := ← Json.defaulted [] (Json.asList? TestResult.ofJson?) results }
  | _ => none

def toJson (c : ReportCard) : Json :=
  .ofPairs [
    ("passed", .bool c.passed), ("note", .text c.note),
    ("results", .array (c.results.map TestResult.toJson))]

end ReportCard

end Proctor
