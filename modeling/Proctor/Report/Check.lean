import Proctor.Report.Fault

/-!
Test reports in the form of the check library: suites of tests with a result, a name and a message.
-/

namespace Proctor.Check

open Xml

structure Test where
  result : Option String := none
  function : Option String := none
  id : Option String := none
  message : Option String := none
  deriving DecidableEq, Repr

def Test.takeAttribute (t : Test) (name : String) (value : List Char) : Except Fault Test :=
  match name with
  | "result" => do
    .ok { t with result := ← Reading.once t.result "@result" (Reading.attributeText value) }
  | _ => .ok t

def Test.takeChild (t : Test) (name : String) : Option (Reading Test) :=
  match name with
  | "fn" => some do
    pure { t with function := ← Reading.fieldOnce t.function name Reading.textElement }
  | "id" => some do
    pure { t with id := ← Reading.fieldOnce t.id name Reading.textElement }
  | "message" => some do
    pure { t with message := ← Reading.fieldOnce t.message name Reading.textElement }
  | _ => none

def testSchema : Reading.Schema Test where
  takeAttribute := Test.takeAttribute
  takeChild t _ name := t.takeChild name
  takeText t _ := .ok t

/-- A suite knows its tests, and the root its suites; both are lists of one kind of child. -/
def listSchema {α : Type} (name : String) (item : Tag → Reading α) :
    Reading.Schema (Option (List α)) where
  takeAttribute items _ _ := .ok items
  takeChild items container child :=
    if child = name then some (Reading.fieldOnce items name (Reading.nextList container item))
    else none
  takeText items _ := .ok items

def suiteSchema : Reading.Schema (Option (List Test)) :=
  listSchema "test" (Reading.element testSchema {})

def suitesSchema : Reading.Schema (Option (List (Option (List Test)))) :=
  listSchema "suite" (Reading.element suiteSchema none)

/-- The tests of all suites of a report. -/
def tests (report : String) : Except ReportFault (List Test) := do
  let scan := scan report.toList
  let root ← ((rootName scan).mapError .xml).map String.ofList
  if root = "testsuites" then
    let suites ← ((Reading.document "struct CheckSuites" suitesSchema none).run scan).mapError .xml
    .ok ((suites.getD []).flatMap (·.getD []))
  else .error (.unexpectedRoot root)

def Test.succeeded (t : Test) : Bool :=
  t.result = some "success"

def addTest (card : ReportCard) (t : Test) : ReportCard :=
  if t.succeeded then card.addPassed (t.id.getD "") (t.message.getD "")
  else card.addFailed (t.id.getD "") (t.message.getD "") (t.function.getD "")

def summary (passed total : Nat) (elapsed : Span) : String :=
  if total = 0 then s!"No test results found in {elapsed.text}"
  else s!"Passed {Decimal.text passed}/{Decimal.text total} tests in {elapsed.text}"

/-- The card passes only if there are tests and all of them succeeded. -/
def addTests (card : ReportCard) (tests : List Test) (elapsed : Span) : ReportCard :=
  let passed := tests.countP Test.succeeded
  let card := tests.foldl addTest card
  { card with
    passed := card.passed && 0 < passed && passed == tests.length
    note := summary passed tests.length elapsed }

/-- Adds a report to a card, which it can fail but not pass. -/
def addReport (card : ReportCard) (contents : Bytes) (elapsed : Span) : ReportCard :=
  if contents.isEmpty then card.fail noResults
  else
    match tests (Utf8.decodeLossy contents) with
    | .error fault => card.fail fault.note
    | .ok tests => addTests card tests elapsed

end Proctor.Check
