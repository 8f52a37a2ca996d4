import Proctor.ProblemType
import Proctor.Report.Check
import Proctor.Report.XUnit
import Proctor.Sandbox

/-!
Grading: running the command of an action in a sandbox and judging the result on a report card.
Nothing that goes wrong here ends a session; it fails the card.
-/

namespace Proctor.Grading

variable {σ : Type}

/-- The file that test programs write their report to. -/
def reportFile : String := "test_detail.xml"

/-- A command passes when it exits with zero. -/
def judgeStatus (line : String) (result : Except EngineError Output) (card : ReportCard) :
    ReportCard :=
  match result with
  | .ok output =>
    if output.status = 0 then card
    else card.fail
      s!"{Text.quoted line} failed with exit status {Decimal.signedText output.status}"
  | .error e => card.fail s!"{Text.quoted line} exec error: {e.message}"

/-- A status above this means that a signal ended the command. -/
def lastStatus : Int := 127

/-- Judges a command by the report that it leaves behind, and by its status. -/
def judgeReport (engine : Engine σ) (add : ReportCard → Bytes → Span → ReportCard) (elapsed : Span)
    (result : Except EngineError Output) (card : ReportCard) (r : Running σ) :
    ReportCard × Running σ :=
  match result with
  | .error e => (card.fail s!"Error running unit tests: {e.message}", r)
  | .ok output =>
    if lastStatus < output.status then
      let status := Decimal.signedText output.status
      (card.fail s!"Crashed with exit status {status} while running unit tests", r)
    else
      let card := { card with passed := output.status = 0 }
      match r.getFiles engine [reportFile] with
      | (.error _, r) => (card.fail "Error getting unit test results", r)
      | (.ok files, r) => (add card ((files.find? reportFile).getD []) elapsed, r)

/-- Judges a command as the action asks for. -/
def judged (engine : Engine σ) (elapsed : Span) (card : ReportCard) (r : Running σ) (line : String)
    (result : Except EngineError Output) : Judge → ReportCard × Running σ
  | .status => (judgeStatus line result card, r)
  | .xunit => judgeReport engine XUnit.addReport elapsed result card r
  | .check => judgeReport engine Check.addReport elapsed result card r

/-- Runs an action; `elapsed` is how long the sandbox was open when its report was read. There is no card
when the command never ends. -/
def run (engine : Engine σ) (a : Action) (elapsed : Span) (card : ReportCard) (r : Running σ) :
    Option ReportCard × Running σ :=
  let command := a.commandLine
  if command.isEmpty then (some (card.fail "action has no command"), r)
  else
    match a.judge? with
    | none => (some (card.fail (Action.unknownJudge a.judge)), r)
    | some judge =>
      match r.exec engine command with
      | (none, r) => (none, r)
      | (some result, r) =>
        let (card, r) := judged engine elapsed card r (" ".intercalate command) result judge
        (some card, r)

end Proctor.Grading
