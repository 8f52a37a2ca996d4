import Proctor.Report.Fault

/-!
Test reports in the xUnit form: suites that count their tests, and test cases that hold what went
wrong.
-/

namespace Proctor.XUnit

open Xml

/-- A test case; each kind of problem may be there once, with its text. -/
structure Case where
  name : Option String := none
  classname : Option String := none
  status : Option String := none
  failure : Option String := none
  error : Option String := none
  disabled : Option String := none
  skipped : Option String := none
  deriving DecidableEq, Repr

structure Suite where
  tests : Option Nat := none
  failures : Option Nat := none
  disabled : Option Nat := none
  skipped : Option Nat := none
  errors : Option Nat := none
  cases : Option (List Case) := none
  deriving DecidableEq, Repr

/-- A problem is an element with text; its attributes and children do not count. -/
def problemSchema : Reading.Schema (Option String) where
  takeAttribute text _ _ := .ok text
  takeChild _ _ _ := none
  takeText text chars := Reading.once text "$text" (.ok (String.ofList chars))

def problem : Reading String := do
  pure ((← Reading.nextElement problemSchema none).getD "")

def Case.takeAttribute (c : Case) (name : String) (value : List Char) : Except Fault Case :=
  let text (field : Option String) (name : String) : Except Fault (Option String) :=
    Reading.once field name (Reading.attributeText value)
  match name with
  | "name" => do .ok { c with name := ← text c.name "@name" }
  | "classname" => do .ok { c with classname := ← text c.classname "@classname" }
  | "status" => do .ok { c with status := ← text c.status "@status" }
  | _ => .ok c

def Case.takeChild (c : Case) (name : String) : Option (Reading Case) :=
  match name with
  | "failure" => some do
    pure { c with failure := ← Reading.fieldOnce c.failure name problem }
  | "error" => some do
    pure { c with error := ← Reading.fieldOnce c.error name problem }
  | "disabled" => some do
    pure { c with disabled := ← Reading.fieldOnce c.disabled name problem }
  | "skipped" => some do
    pure { c with skipped := ← Reading.fieldOnce c.skipped name problem }
  | _ => none

def caseSchema : Reading.Schema Case where
  takeAttribute := Case.takeAttribute
  takeChild c _ name := c.takeChild name
  takeText c _ := .ok c

def Suite.takeAttribute (s : Suite) (name : String) (value : List Char) : Except Fault Suite :=
  let count (field : Option Nat) (name : String) : Except Fault (Option Nat) :=
    Reading.once field name (Reading.attributeCount value)
  match name with
  | "tests" => do .ok { s with tests := ← count s.tests "@tests" }
  | "failures" => do .ok { s with failures := ← count s.failures "@failures" }
  | "disabled" => do .ok { s with disabled := ← count s.disabled "@disabled" }
  | "skipped" => do .ok { s with skipped := ← count s.skipped "@skipped" }
  | "errors" => do .ok { s with errors := ← count s.errors "@errors" }
  | _ => .ok s

def suiteSchema : Reading.Schema Suite where
  takeAttribute := Suite.takeAttribute
  takeChild s container name :=
    if name = "testcase" then some do
      let cases := Reading.nextList container (Reading.element caseSchema {})
      pure { s with cases := ← Reading.fieldOnce s.cases name cases }
    else none
  takeText s _ := .ok s

/-- A document of several suites. -/
def suitesSchema : Reading.Schema (Option (List Suite)) where
  takeAttribute suites _ _ := .ok suites
  takeChild suites container name :=
    if name = "testsuite" then
      some (Reading.fieldOnce suites name
        (Reading.nextList container (Reading.element suiteSchema {})))
    else none
  takeText suites _ := .ok suites

/-- The suites of a report, whose root holds several suites or is one. -/
def suites (report : String) : Except ReportFault (List Suite) := do
  let scan := scan report.toList
  let root ← ((rootName scan).mapError .xml).map String.ofList
  if root = "testsuites" then
    let suites ← ((Reading.document "struct XUnitSuites" suitesSchema none).run scan).mapError .xml
    .ok (suites.getD [])
  else if root = "testsuite" then
    let suite ← ((Reading.document "struct XUnitSuite" suiteSchema {}).run scan).mapError .xml
    .ok [suite]
  else .error (.unexpectedRoot root)

def Case.title (c : Case) : String :=
  let name := c.name.getD ""
  match c.classname.getD "" with
  | "" => name
  | classname => s!"{classname} -> {name}"

/-- What went wrong: the text of the first kind of problem that is there, or nothing but the fact when
the case was not run. -/
def Case.problem? (c : Case) : Option String :=
  match c.failure <|> c.error <|> c.disabled <|> c.skipped with
  | some text => some text
  | none => if c.status.getD "" = "" ∨ c.status = some "run" then none else some ""

/-- Counts are added in 32 bits; what is carried out of them is lost. -/
def total (counts : List Nat) : Nat :=
  counts.foldl (fun sum n => (sum + n) % UInt32.size) 0

def Suite.failed (s : Suite) : Nat :=
  total [s.failures.getD 0, s.disabled.getD 0, s.skipped.getD 0, s.errors.getD 0]

def addCase (card : ReportCard) (c : Case) : ReportCard :=
  match c.problem? with
  | none => card.addPassed c.title ""
  | some text => card.addFailed c.title text (Location.ofFailure text)

/-- The card passes only if tests were run and none failed by the counts of the suites. -/
def addSuites (card : ReportCard) (suites : List Suite) (elapsed : Span) : ReportCard :=
  let tests := total (suites.map fun s => s.tests.getD 0)
  let failed := total (suites.map Suite.failed)
  let card := { card with
    note := s!"Passed {Decimal.text (tests - failed)}/{Decimal.text tests} tests in {elapsed.text}"
    passed := card.passed && 0 < tests && failed == 0 }
  (suites.flatMap fun s => s.cases.getD []).foldl addCase card

/-- Adds a report to a card, which it can fail but not pass. -/
def addReport (card : ReportCard) (contents : Bytes) (elapsed : Span) : ReportCard :=
  if contents.isEmpty then card.fail noResults
  else
    match suites (Utf8.decodeLossy contents) with
    | .error fault => card.fail fault.note
    | .ok suites => addSuites card suites elapsed

end Proctor.XUnit
