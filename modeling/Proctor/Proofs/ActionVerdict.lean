import Proctor.Grading
import Proctor.Proofs.BareSuites
import Proctor.Proofs.KeyMap
import Proctor.Proofs.MemoryEngine
import Proctor.Proofs.PackedFiles
import Proctor.Proofs.SandboxLife

/-!
The verdict on an action. Its command is run once at most, and its card passes exactly when the command
ended with status zero and, where the action is judged by a report, the report that is found in the home
directory behind it is clean.

Main statement: `verdict_of_action`, for every engine and every state of a sandbox.
-/

namespace Proctor

/-- A report whose suites can be read, with totals of a test and of no failure, and no failure in the cases. -/
def XUnit.IsClean (contents : Bytes) : Prop :=
  ∃ suites, read contents = .ok suites ∧ TotalsWell suites ∧ ∀ c ∈ casesOf suites, c.problem? = none

/-- A report of the check library that can be read, and in which a test succeeded and none did not. -/
def Check.IsClean (contents : Bytes) : Prop :=
  ∃ tests, read contents = .ok tests ∧ CountsWell tests

theorem XUnit.not_isClean_nil : ¬XUnit.IsClean [] := by
  rintro ⟨suites, hread, _⟩
  obtain ⟨fault, hfault⟩ := exists_read_nil rfl
  rw [hread] at hfault
  cases hfault

theorem Check.not_isClean_nil : ¬Check.IsClean [] := by
  rintro ⟨tests, hread, _⟩
  obtain ⟨fault, hfault⟩ := exists_read_nil rfl
  rw [hread] at hfault
  cases hfault

theorem XUnit.passed_addReport_iff (card : ReportCard) (contents : Bytes) (elapsed : Span) :
    (addReport card contents elapsed).passed = true ↔ card.passed = true ∧ IsClean contents := by
  cases h : read contents with
  | error fault => simp [IsClean, h, ((onlyLowers_addReport card contents elapsed).unread fault h).2]
  | ok suites =>
    rw [addReport_eq, ReportCard.addRead_of_ok exists_read_nil h, passed_addSuites_iff]
    simp [IsClean, h, Case.result]

theorem Check.passed_addReport_iff (card : ReportCard) (contents : Bytes) (elapsed : Span) :
    (addReport card contents elapsed).passed = true ↔ card.passed = true ∧ IsClean contents := by
  cases h : read contents with
  | error fault => simp [IsClean, h, ((onlyLowers_addReport card contents elapsed).unread fault h).2]
  | ok tests =>
    rw [addReport_eq, ReportCard.addRead_of_ok exists_read_nil h, passed_addTests_iff]
    simp only [IsClean, h, Except.ok.injEq, exists_eq_left']
    constructor
    · rintro ⟨hpassed, hcounts, _⟩
      exact ⟨hpassed, hcounts⟩
    · rintro ⟨hpassed, hcounts⟩
      refine ⟨hpassed, hcounts, ?_⟩
      simpa [Test.graded, Test.succeeded] using hcounts.all

variable {σ : Type}

namespace Running

/-- How the engine says that a command ends in a sandbox. -/
def endingOf (e : Engine σ) (command : List String) (r : Running σ) : Ending :=
  (e.exec r.sandbox.name r.sandbox.uid command r.world.engine).1.ending

/-- The home directory that is found behind a command: the one that was asked for before, or else what the
engine copies out. -/
def homeBehind (e : Engine σ) (command : List String) (r : Running σ) :
    Except EngineError (KeyMap Bytes) :=
  match r.sandbox.snapshot with
  | some files => .ok files
  | none =>
    let s := (e.exec r.sandbox.name r.sandbox.uid command r.world.engine).2
    (e.copyOut r.sandbox.name r.sandbox.uid s).1.bind unpacked

variable (e : Engine σ) (command : List String) (r : Running σ)

/-- A command has an output exactly when it is run and exits. -/
theorem exec_eq_ok_iff (output : Output) :
    (r.exec e command).1 = some (.ok output) ↔ r.sandbox.closed = false ∧
      ∃ status, r.endingOf e command = .exited status ∧
        output = ⟨status,
          (e.exec r.sandbox.name r.sandbox.uid command r.world.engine).1.output .stdout,
          (e.exec r.sandbox.name r.sandbox.uid command r.world.engine).1.output .stderr⟩ := by
  unfold exec endingOf
  cases hclosed : r.sandbox.closed with
  | true => simp
  | false =>
    cases hending : (e.exec r.sandbox.name r.sandbox.uid command r.world.engine).1.ending with
    | exited status => simp [hending, eq_comm]
    | failed error => simp [hending]
    | running => cases htimeout : r.sandbox.timeout <;> simp [hending, emit, htimeout]

theorem exec_zero_iff :
    (∃ output, (r.exec e command).1 = some (.ok output) ∧ output.status = 0) ↔
      r.sandbox.closed = false ∧ r.endingOf e command = .exited 0 := by
  simp only [exec_eq_ok_iff]
  constructor
  · rintro ⟨_, ⟨hopen, status, hending, rfl⟩, hzero⟩
    exact ⟨hopen, hending.trans (congrArg _ hzero)⟩
  · rintro ⟨hopen, hending⟩
    exact ⟨_, ⟨hopen, 0, hending, rfl⟩, rfl⟩

theorem exec_of_exited {status : Int} (hopen : r.sandbox.closed = false)
    (hending : r.endingOf e command = .exited status) :
    ∃ output, (r.exec e command).1 = some (.ok output) ∧ output.status = status ∧
      (r.exec e command).2.sandbox = r.sandbox := by
  unfold endingOf at hending
  simp [exec, hopen, hending, emit]

theorem snapshot_exec {status : Int} (hopen : r.sandbox.closed = false)
    (hending : r.endingOf e command = .exited status) :
    ((r.exec e command).2.snapshot e).1 = r.homeBehind e command := by
  unfold endingOf at hending
  simp only [exec, hopen, hending, homeBehind, snapshot, emit, Bool.false_eq_true, if_false]
  cases r.sandbox.snapshot with
  | some files => rfl
  | none =>
    simp only
    split <;> simp only [*]

end Running

namespace Grading

/-- The report is the file of its name, and no other. -/
theorem find?_select_reportFile (files : KeyMap Bytes) :
    (Running.select [reportFile] files).find? reportFile = files.find? reportFile := by
  have haccepts : ([reportFile].filterMap Glob.parse?).any (Glob.accepts · reportFile) = true := by
    decide +kernel
  rw [Running.select, KeyMap.find?_filter]
  cases files.find? reportFile <;> simp [Option.filter, haccepts]

/-- A report in a home directory that is there, has contents, and is clean. -/
def ReportIn (IsClean : Bytes → Prop) (home : Except EngineError (KeyMap Bytes)) : Prop :=
  ∃ files contents, home = .ok files ∧ files.find? reportFile = some contents ∧ contents ≠ [] ∧
    IsClean contents

section Judging

variable (e : Engine σ) (elapsed : Span) (card : ReportCard) (r : Running σ)

theorem passed_judgeStatus_iff (line : String) (result : Except EngineError Output) :
    (judgeStatus line result card).passed = true ↔
      card.passed = true ∧ ∃ output, result = .ok output ∧ output.status = 0 := by
  cases result with
  | error error => simp [judgeStatus, ReportCard.fail]
  | ok output => by_cases h : output.status = 0 <;> simp [judgeStatus, ReportCard.fail, h]

theorem passed_judgeReport_iff {add : ReportCard → Bytes → Span → ReportCard} {IsClean : Bytes → Prop}
    (hadd : ∀ card contents, (add card contents elapsed).passed = true ↔
      card.passed = true ∧ IsClean contents)
    (hnil : ¬IsClean []) (result : Except EngineError Output) :
    (judgeReport e add elapsed result card r).1.passed = true ↔
      (∃ output, result = .ok output ∧ output.status = 0) ∧ ReportIn IsClean (r.snapshot e).1 := by
  cases result with
  | error error => simp [judgeReport, ReportCard.fail]
  | ok output =>
    by_cases hcrash : lastStatus < output.status
    · have hstatus : output.status ≠ 0 := by
        unfold lastStatus at hcrash
        omega
      simp [judgeReport, ReportCard.fail, hcrash, hstatus]
    · rcases hsnapshot : r.snapshot e with ⟨home, r'⟩
      have hfiles : r.getFiles e [reportFile] = (home.map (Running.select [reportFile]), r') := by
        simp [Running.getFiles_eq, hsnapshot]
      simp only [judgeReport, hcrash, if_false, hfiles]
      cases home with
      | error error => simp [Except.map, ReportCard.fail, ReportIn]
      | ok files =>
        simp only [Except.map, hadd, find?_select_reportFile, ReportIn]
        cases hreport : files.find? reportFile with
        | none => simp [hnil, hreport]
        | some contents =>
          by_cases hcontents : contents = [] <;> simp [hcontents, hnil, hreport]

/-- The tags of an action and the judges that they name. -/
theorem judge?_cases (a : Action) :
    a.judge = "" ∧ a.judge? = some .status ∨ a.judge = "xunit" ∧ a.judge? = some .xunit ∨
      a.judge = "check" ∧ a.judge? = some .check ∨
        a.judge ∉ ["", "xunit", "check"] ∧ a.judge? = none := by
  unfold Action.judge?
  split_ifs <;> simp_all

theorem judge?_eq_status_iff (a : Action) : a.judge? = some .status ↔ a.judge = "" := by
  rcases judge?_cases a with ⟨h, h'⟩ | ⟨h, h'⟩ | ⟨h, h'⟩ | ⟨h, h'⟩ <;> simp_all

theorem judge?_eq_none_iff (a : Action) : a.judge? = none ↔ a.judge ∉ ["", "xunit", "check"] := by
  rcases judge?_cases a with ⟨h, h'⟩ | ⟨h, h'⟩ | ⟨h, h'⟩ | ⟨h, h'⟩ <;> simp_all

theorem run_of_judge? {a : Action} {judge : Judge} (hcommand : a.commandLine ≠ [])
    (hjudge : a.judge? = some judge) :
    run e a elapsed card r = match r.exec e a.commandLine with
      | (none, r) => (none, r)
      | (some result, r) =>
        (judged e elapsed card r (" ".intercalate a.commandLine) result judge).map some id := by
  simp only [run, List.isEmpty_iff, hcommand, hjudge, if_false]
  rfl

/-- The card of a command that has a result is the one that its judge leaves. -/
theorem fst_run_of_judge? {a : Action} {judge : Judge} (hcommand : a.commandLine ≠ [])
    (hjudge : a.judge? = some judge) :
    (run e a elapsed card r).1 = (r.exec e a.commandLine).1.map fun result =>
      (judged e elapsed card (r.exec e a.commandLine).2 (" ".intercalate a.commandLine) result judge).1 := by
  rw [run_of_judge? e elapsed card r hcommand hjudge]
  rcases r.exec e a.commandLine with ⟨_ | result, r'⟩ <;> rfl

/-- A command that was not run to a status worth judging fails the card, and nothing is looked at. -/
theorem judged_of_failed {result : Except EngineError Output}
    (h : ∀ output, result = .ok output → lastStatus < output.status) (line : String) (judge : Judge) :
    (judged e elapsed card r line result judge).1.passed = false ∧
      (judged e elapsed card r line result judge).1.results = card.results ∧
      (judged e elapsed card r line result judge).2 = r := by
  cases result with
  | error error => cases judge <;> exact ⟨rfl, rfl, rfl⟩
  | ok output =>
    have hcrash := h output rfl
    have hstatus : output.status ≠ 0 := by
      unfold lastStatus at hcrash
      omega
    cases judge <;> simp [judged, judgeStatus, judgeReport, hcrash, hstatus, ReportCard.fail]

theorem running_judged {output : Output} (h : ¬lastStatus < output.status) (line : String)
    (judge : Judge) :
    (judged e elapsed card r line (.ok output) judge).2 =
      if judge = .status then r else (r.getFiles e [reportFile]).2 := by
  have hreport (add : ReportCard → Bytes → Span → ReportCard) :
      (judgeReport e add elapsed (.ok output) card r).2 = (r.getFiles e [reportFile]).2 := by
    rcases hfiles : r.getFiles e [reportFile] with ⟨files, r'⟩
    cases files <;> simp [judgeReport, h, hfiles]
  cases judge with
  | status => rfl
  | xunit => exact hreport XUnit.addReport
  | check => exact hreport Check.addReport

/-- There is no card exactly when the command is run without a time limit and does not end. -/
theorem run_eq_none_iff (a : Action) :
    (run e a elapsed card r).1 = none ↔ a.commandLine ≠ [] ∧ a.judge ∈ ["", "xunit", "check"] ∧
      r.sandbox.closed = false ∧ r.sandbox.timeout = 0 ∧ r.endingOf e a.commandLine = .running := by
  by_cases hcommand : a.commandLine = []
  · simp [run, hcommand]
  cases hjudge : a.judge? with
  | none =>
    have htag := (judge?_eq_none_iff a).1 hjudge
    simp [run, hcommand, hjudge, htag]
  | some judge =>
    have htag : a.judge ∈ ["", "xunit", "check"] := by
      by_contra h
      rw [(judge?_eq_none_iff a).2 h] at hjudge
      cases hjudge
    rw [fst_run_of_judge? e elapsed card r hcommand hjudge, Option.map_eq_none_iff,
      Running.exec_eq_none_iff]
    simp [hcommand, htag, Running.endingOf]

theorem passed_run_iff (a : Action) :
    (∃ card, (run e a elapsed .fresh r).1 = some card ∧ card.passed = true) ↔
      a.commandLine ≠ [] ∧ r.sandbox.closed = false ∧ r.endingOf e a.commandLine = .exited 0 ∧
      (a.judge = "" ∨ a.judge = "xunit" ∧ ReportIn XUnit.IsClean (r.homeBehind e a.commandLine) ∨
        a.judge = "check" ∧ ReportIn Check.IsClean (r.homeBehind e a.commandLine)) := by
  by_cases hcommand : a.commandLine = []
  · simp [run, hcommand, ReportCard.fail]
  have hzero := Running.exec_zero_iff e a.commandLine r
  have hpassed {judge : Judge} (hjudge : a.judge? = some judge) :
      (∃ card, (run e a elapsed .fresh r).1 = some card ∧ card.passed = true) ↔
        ∃ result, (r.exec e a.commandLine).1 = some result ∧
          (judged e elapsed .fresh (r.exec e a.commandLine).2 (" ".intercalate a.commandLine) result
            judge).1.passed = true := by
    rw [fst_run_of_judge? e elapsed .fresh r hcommand hjudge]
    simp
  have hreport {IsClean : Bytes → Prop} :
      (∃ result, (r.exec e a.commandLine).1 = some result ∧
        (∃ output, result = .ok output ∧ output.status = 0) ∧
          ReportIn IsClean ((r.exec e a.commandLine).2.snapshot e).1) ↔
      r.sandbox.closed = false ∧ r.endingOf e a.commandLine = .exited 0 ∧
        ReportIn IsClean (r.homeBehind e a.commandLine) := by
    constructor
    · rintro ⟨_, hresult, ⟨output, rfl, hstatus⟩, hclean⟩
      obtain ⟨hopen, hending⟩ := hzero.1 ⟨output, hresult, hstatus⟩
      rw [Running.snapshot_exec e a.commandLine r hopen hending] at hclean
      exact ⟨hopen, hending, hclean⟩
    · rintro ⟨hopen, hending, hclean⟩
      obtain ⟨output, hresult, hstatus⟩ := hzero.2 ⟨hopen, hending⟩
      rw [← Running.snapshot_exec e a.commandLine r hopen hending] at hclean
      exact ⟨_, hresult, ⟨output, rfl, hstatus⟩, hclean⟩
  rcases judge?_cases a with ⟨htag, hjudge⟩ | ⟨htag, hjudge⟩ | ⟨htag, hjudge⟩ | ⟨htag, hjudge⟩
  · have hstatus : (∃ result, (r.exec e a.commandLine).1 = some result ∧
        ∃ output, result = .ok output ∧ output.status = 0) ↔
          r.sandbox.closed = false ∧ r.endingOf e a.commandLine = .exited 0 := by
      rw [← hzero]
      simp
    simp only [hpassed hjudge, judged, passed_judgeStatus_iff]
    simpa [hcommand, htag, ReportCard.fresh] using hstatus
  · simp only [hpassed hjudge, judged, passed_judgeReport_iff e elapsed _ _
      (XUnit.passed_addReport_iff · · elapsed) XUnit.not_isClean_nil, hreport]
    simp [hcommand, htag]
  · simp only [hpassed hjudge, judged, passed_judgeReport_iff e elapsed _ _
      (Check.passed_addReport_iff · · elapsed) Check.not_isClean_nil, hreport]
    simp [hcommand, htag]
  · simp_all [run, ReportCard.fail]

/-- Without a status worth judging a card fails and has no results, whatever the action. -/
theorem failed_run (a : Action)
    (h : ∀ status, r.endingOf e a.commandLine = .exited status → lastStatus < status) {card : ReportCard}
    (hcard : (run e a elapsed .fresh r).1 = some card) : card.passed = false ∧ card.results = [] := by
  by_cases hcommand : a.commandLine = []
  · simp only [run, hcommand, List.isEmpty_nil, if_true] at hcard
    cases hcard
    exact ⟨rfl, rfl⟩
  cases hjudge : a.judge? with
  | none =>
    simp only [run, List.isEmpty_iff, hcommand, hjudge, if_false] at hcard
    cases hcard
    exact ⟨rfl, rfl⟩
  | some judge =>
    rw [fst_run_of_judge? e elapsed .fresh r hcommand hjudge, Option.map_eq_some_iff] at hcard
    obtain ⟨result, hresult, rfl⟩ := hcard
    have hbeyond (output : Output) (hok : result = .ok output) : lastStatus < output.status := by
      rw [hok] at hresult
      obtain ⟨_, status, hending, rfl⟩ := (Running.exec_eq_ok_iff e a.commandLine r output).1 hresult
      exact h status hending
    obtain ⟨hpassed, hresults, _⟩ := judged_of_failed e elapsed .fresh (r.exec e a.commandLine).2
      hbeyond (" ".intercalate a.commandLine) judge
    exact ⟨hpassed, hresults⟩

end Judging

/-! ### What is asked of the engine -/

/-- What follows a command: its removal when its time is up, and a copy of the home directory when it left a
report worth reading that is not at hand. -/
def callsBehind (a : Action) (sandbox : Sandbox) : Ending → List Engine.Call
  | .running => if sandbox.timeout = 0 then [] else [.remove sandbox.name]
  | .failed _ => []
  | .exited status =>
    if a.judge = "" ∨ lastStatus < status ∨ sandbox.snapshot.isSome then []
    else [.copyOut sandbox.name]

end Grading

/-- A sandbox in a watched world, before any calls. -/
def Running.watched (r : Running σ) : Running (Watched σ) :=
  ⟨r.sandbox, r.world.watched, r.events⟩

theorem Running.calls_exec_watched (e : Engine σ) (command : List String) (r : Running σ)
    (hopen : r.sandbox.closed = false) :
    (r.watched.exec e.watched command).2.world.engine.calls =
      .exec r.sandbox.name ::
        if r.endingOf e command = .running ∧ r.sandbox.timeout ≠ 0 then [.remove r.sandbox.name] else [] := by
  cases hending : r.endingOf e command <;> unfold endingOf at hending
  case running =>
    cases htimeout : r.sandbox.timeout <;>
      simp [exec, watched, World.watched, Engine.watched, hopen, emit, shutDown, hending, htimeout]
  all_goals simp [exec, watched, World.watched, Engine.watched, hopen, emit, hending]

theorem Running.calls_getFiles_watched (e : Engine σ) (name : String) (r : Running (Watched σ))
    (hopen : r.sandbox.closed = false) :
    (r.getFiles e.watched [name]).2.world.engine.calls =
      r.world.engine.calls ++
        if r.sandbox.snapshot.isSome then [] else [.copyOut r.sandbox.name] := by
  simp only [getFiles_eq, List.isEmpty_cons, Bool.false_eq_true, if_false, snapshot]
  cases r.sandbox.snapshot with
  | some files => simp
  | none =>
    simp only [hopen, Engine.watched, Bool.false_eq_true, if_false, Option.isSome_none]
    split <;> rfl

namespace Grading

/-- Nothing follows a command that was not run to a status worth judging. -/
theorem running_run_of_failed (e : Engine σ) {a : Action} {judge : Judge} (elapsed : Span)
    (card : ReportCard) (r : Running σ) (hcommand : a.commandLine ≠ []) (hjudge : a.judge? = some judge)
    (h : ∀ output, (r.exec e a.commandLine).1 = some (.ok output) → lastStatus < output.status) :
    (run e a elapsed card r).2 = (r.exec e a.commandLine).2 := by
  rw [run_of_judge? e elapsed card r hcommand hjudge]
  rcases hexec : r.exec e a.commandLine with ⟨_ | result, r'⟩
  · rfl
  · rw [hexec] at h
    exact (judged_of_failed e elapsed card r' (fun output hok => h output (congrArg some hok)) _ judge).2.2

/-- Behind one that was, the home directory is asked for where a report is. -/
theorem running_run_of_output (e : Engine σ) {a : Action} {judge : Judge} (elapsed : Span)
    (card : ReportCard) (r : Running σ) (hcommand : a.commandLine ≠ []) (hjudge : a.judge? = some judge)
    {output : Output} (hresult : (r.exec e a.commandLine).1 = some (.ok output))
    (hworth : ¬lastStatus < output.status) :
    (run e a elapsed card r).2 = if judge = .status then (r.exec e a.commandLine).2
      else ((r.exec e a.commandLine).2.getFiles e [reportFile]).2 := by
  rw [run_of_judge? e elapsed card r hcommand hjudge]
  rcases hexec : r.exec e a.commandLine with ⟨_ | result, r'⟩
  · rw [hexec] at hresult
    cases hresult
  · rw [hexec] at hresult
    cases hresult
    exact running_judged e elapsed card r' hworth (" ".intercalate a.commandLine) judge

theorem calls_run (e : Engine σ) (a : Action) (elapsed : Span) (card : ReportCard) (r : Running σ) :
    (run e.watched a elapsed card r.watched).2.world.engine.calls =
      if a.commandLine = [] ∨ a.judge? = none ∨ r.sandbox.closed = true then []
      else .exec r.sandbox.name :: callsBehind a r.sandbox (r.endingOf e a.commandLine) := by
  by_cases hcommand : a.commandLine = []
  · simp [run, hcommand, Running.watched, World.watched]
  cases hjudge : a.judge? with
  | none => simp [run, hcommand, hjudge, Running.watched, World.watched]
  | some judge =>
    cases hclosed : r.sandbox.closed with
    | true =>
      have hexec : r.watched.exec e.watched a.commandLine =
          (some (.error r.watched.shutDownError), r.watched) := if_pos hclosed
      rw [running_run_of_failed e.watched elapsed card r.watched hcommand hjudge (by simp [hexec]), hexec]
      simp [Running.watched, World.watched]
    | false =>
      have hcalls := Running.calls_exec_watched e a.commandLine r hclosed
      have hexited {status : Int} (hending : r.endingOf e a.commandLine = .exited status) :=
        Running.exec_of_exited e.watched a.commandLine r.watched hclosed hending
      by_cases hfailed : ∀ output, (r.watched.exec e.watched a.commandLine).1 = some (.ok output) →
          lastStatus < output.status
      · rw [running_run_of_failed e.watched elapsed card r.watched hcommand hjudge hfailed, hcalls]
        cases hending : r.endingOf e a.commandLine with
        | exited status =>
          obtain ⟨output, hresult, rfl, _⟩ := hexited hending
          simp [hcommand, callsBehind, hfailed output hresult]
        | failed error => simp [hcommand, callsBehind]
        | running => simp [hcommand, callsBehind]
      · simp only [not_forall, exists_prop] at hfailed
        obtain ⟨output, hresult, hworth⟩ := hfailed
        obtain ⟨_, status, hexits, rfl⟩ :=
          (Running.exec_eq_ok_iff e.watched a.commandLine r.watched output).1 hresult
        have hending : r.endingOf e a.commandLine = .exited status := hexits
        obtain ⟨_, _, _, hsandbox⟩ := hexited hending
        have hnot : ¬lastStatus < status := hworth
        rw [running_run_of_output e.watched elapsed card r.watched hcommand hjudge hresult hworth]
        rw [hending] at hcalls ⊢
        by_cases htag : a.judge = ""
        · have hstatusJudge : judge = .status :=
            Option.some.inj (hjudge.symm.trans ((judge?_eq_status_iff a).2 htag))
          simp [hcommand, callsBehind, hcalls, hstatusJudge, htag]
        · have hother : judge ≠ .status := fun h => htag ((judge?_eq_status_iff a).1 (h ▸ hjudge))
          rw [if_neg hother, Running.calls_getFiles_watched _ _ _ (hsandbox ▸ hclosed), hcalls, hsandbox]
          by_cases hfound : r.sandbox.snapshot.isSome <;>
            simp [hcommand, callsBehind, hnot, htag, hfound, Running.watched]

/-- Watching an engine changes no verdict. -/
theorem fst_run_watched (e : Engine σ) (a : Action) (elapsed : Span) (card : ReportCard)
    (r : Running σ) : (run e.watched a elapsed card r.watched).1 = (run e a elapsed card r).1 := by
  have hexec := Running.exec_map e.watched_simulates a.commandLine r.watched
  have hreport (add : ReportCard → Bytes → Span → ReportCard) (result : Except EngineError Output)
      (r : Running (Watched σ)) :
      (judgeReport e.watched add elapsed result card r).1 =
        (judgeReport e add elapsed result card (r.map (·.state))).1 := by
    cases result with
    | error error => rfl
    | ok output =>
      simp only [judgeReport, Running.getFiles_map e.watched_simulates]
      split
      · rfl
      · rcases r.getFiles e.watched [reportFile] with ⟨_ | _, _⟩ <;> rfl
  have hself : r.watched.map (·.state) = r := rfl
  rw [hself] at hexec
  by_cases hcommand : a.commandLine = []
  · simp [run, hcommand]
  cases hjudge : a.judge? with
  | none => simp [run, hcommand, hjudge]
  | some judge =>
    rw [fst_run_of_judge? _ _ _ _ hcommand hjudge, fst_run_of_judge? _ _ _ _ hcommand hjudge, hexec]
    simp only [Prod.map, id]
    congr 1
    funext result
    cases judge with
    | status => rfl
    | xunit => exact hreport XUnit.addReport _ _
    | check => exact hreport Check.addReport _ _

/-- An action passes on a fresh card exactly when it has a command, its judge is known, the command ends with
status zero and, where a report is asked for, the home directory behind it can be copied out and holds one
that is clean. A command that fails, or ends with a status beyond the last one, leaves a failed card without
results. The command is run once at most, not at all when there is none or the judge is unknown, and nothing
is copied out behind a command that failed or ended with such a status. There is no card only when a command
without a time limit does not end. -/
theorem verdict_of_action (e : Engine σ) (a : Action) (elapsed : Span) (r : Running σ) :
    let card := (run e a elapsed .fresh r).1
    let watched := run e.watched a elapsed .fresh r.watched
    let ending := r.endingOf e a.commandLine
    let home := r.homeBehind e a.commandLine
    ((∃ c, card = some c ∧ c.passed = true) ↔
      a.commandLine ≠ [] ∧ r.sandbox.closed = false ∧ ending = .exited 0 ∧
      (a.judge = "" ∨ a.judge = "xunit" ∧ ReportIn XUnit.IsClean home ∨
        a.judge = "check" ∧ ReportIn Check.IsClean home)) ∧
    ((∀ status, ending = .exited status → lastStatus < status) →
      ∀ c, card = some c → c.passed = false ∧ c.results = []) ∧
    (card = none ↔ a.commandLine ≠ [] ∧ a.judge ∈ ["", "xunit", "check"] ∧
      r.sandbox.closed = false ∧ r.sandbox.timeout = 0 ∧ ending = .running) ∧
    watched.1 = card ∧
    watched.2.world.engine.calls =
      if a.commandLine = [] ∨ a.judge ∉ ["", "xunit", "check"] ∨ r.sandbox.closed = true then []
      else .exec r.sandbox.name :: callsBehind a r.sandbox ending := by
  intro card watched ending home
  refine ⟨passed_run_iff e elapsed r a, fun h c hcard => failed_run e elapsed r a h hcard,
    run_eq_none_iff e elapsed .fresh r a, fst_run_watched e a elapsed .fresh r, ?_⟩
  simpa only [judge?_eq_none_iff] using calls_run e a elapsed .fresh r

/-- A command that a signal ended fails its card, and the report that it wrote before is not copied out. -/
theorem crashed_action_fails :
    let m : Memory := {
      homes := KeyMap.empty.insert "nanny-42" .empty
      script := [{ status := 139, writes := KeyMap.empty.insert reportFile [60] }] }
    let a : Action := { command := "make grade", judge := "xunit" }
    let r : Running Memory := ⟨⟨"nanny-42", 10000, 20, none, false⟩, ⟨m, {}⟩, []⟩
    r.endingOf Memory.engine a.commandLine = .exited 139 ∧
    (∃ card, (run Memory.engine a (.ofSeconds 1) .fresh r).1 = some card ∧ card.passed = false ∧
      card.results = []) ∧
    (run Memory.engine.watched a (.ofSeconds 1) .fresh r.watched).2.world.engine.calls =
      [.exec "nanny-42"] := by
  intro m a r
  obtain ⟨_, hfailed, hnone, _, hcalls⟩ := verdict_of_action Memory.engine a (.ofSeconds 1) r
  have hending : r.endingOf Memory.engine a.commandLine = .exited 139 := rfl
  have hcrash : ∀ status, r.endingOf Memory.engine a.commandLine = .exited status →
      lastStatus < status := by
    intro status h
    rw [hending] at h
    cases h
    decide
  obtain ⟨card, hcard⟩ := Option.ne_none_iff_exists'.1 fun h => by
    obtain ⟨_, _, _, _, hrunning⟩ := hnone.1 h
    rw [hending] at hrunning
    cases hrunning
  rw [if_neg (by decide +kernel), hending] at hcalls
  exact ⟨hending, ⟨card, hcard, hfailed hcrash card hcard⟩, hcalls⟩

/-- A home directory that holds a report alone is copied out as it is. -/
theorem exists_packed_report {contents : Bytes} (h : contents.length < 2 ^ 63) (uid mtime : Nat) :
    ∃ archive, packed (KeyMap.empty.insert reportFile contents) uid mtime = .ok archive ∧
      unpacked archive = .ok (KeyMap.empty.insert reportFile contents) := by
  have hnames : ∀ name ∈ (KeyMap.empty.insert reportFile contents).keys,
      Archive.IsNormal name ∧ '\x00' ∉ name.toList := by
    intro name hname
    obtain rfl : name = reportFile := List.mem_singleton.1 hname
    exact ⟨⟨[reportFile], by decide +kernel⟩, by decide +kernel⟩
  have hheld : ∀ file ∈ (KeyMap.empty.insert reportFile contents).entries, Archive.IsHeld file := by
    intro file hfile
    obtain rfl : file = (reportFile, contents) := List.mem_singleton.1 hfile
    have hname : (Utf8.encode reportFile).length < 2 ^ 63 := by decide +kernel
    exact ⟨hname, h⟩
  obtain ⟨archive, hpack, hunpack⟩ := Archive.exists_pack_unpack hnames hheld uid mtime
  exact ⟨archive, by rw [packed, hpack]; rfl, by rw [unpacked, hunpack]; rfl⟩

/-- An action passes on a report that shows a failure, when it shows it in a suite without a root that stands
behind another. -/
theorem failure_behind_first_passes :
    let report := XUnit.twoSuites.bare
    let home := KeyMap.empty.insert reportFile report.bytes
    let m : Memory := { homes := KeyMap.empty.insert "nanny-42" .empty, script := [{ writes := home }] }
    let a : Action := { command := "make grade", judge := "xunit" }
    let r : Running Memory := ⟨⟨"nanny-42", 10000, 20, none, false⟩, ⟨m, {}⟩, []⟩
    report.text = "<testsuite tests=\"1\"><testcase name=\"a\"/></testsuite>" ++
      "<testsuite tests=\"1\" failures=\"1\"><testcase name=\"b\"><failure/></testcase></testsuite>" ∧
    XUnit.failedSuite ∈ XUnit.twoSuites.rest.elements ∧
    (∃ suite, XUnit.read (XUnit.ownReport XUnit.failedSuite) = .ok [suite] ∧ suite.failures = some 1 ∧
      ∃ c ∈ XUnit.casesOf [suite], c.problem? = some "") ∧
    r.endingOf Memory.engine a.commandLine = .exited 0 ∧
    r.homeBehind Memory.engine a.commandLine = .ok home ∧
    ∃ card, (run Memory.engine a (.ofSeconds 1) .fresh r).1 = some card ∧ card.passed = true := by
  intro report home m a r
  have hread : XUnit.read report.bytes =
      .ok [{ tests := some 1, cases := some [{ name := some "a" }] }] := by
    have hfirst := XUnit.read_suite (d := report) (XUnit.twoSuites.named _ (.head _))
    rw [hfirst]
    exact congrArg (fun suite => (Except.mapError ReportFault.xml suite).map ([·]))
      XUnit.readSuite_passedSuite
  have hclean : XUnit.IsClean report.bytes :=
    ⟨_, hread, ⟨by decide, by decide⟩, by decide⟩
  have hending : r.endingOf Memory.engine a.commandLine = .exited 0 := rfl
  have hhome : r.homeBehind Memory.engine a.commandLine = .ok home := by
    have hshort : report.bytes.length < 2 ^ 63 := by decide +kernel
    obtain ⟨archive, hpack, hunpack⟩ := exists_packed_report hshort 10000 0
    have hcopy : (Memory.engine.copyOut "nanny-42" 10000
        (Memory.engine.exec "nanny-42" 10000 a.commandLine m).2).1 = .ok archive := by
      rw [Memory.engine_exec rfl, Memory.engine_copyOut rfl]
      simp [Memory.exec, Memory.copyOut, m, Act.home, KeyMap.empty_union, home, hpack]
    exact (congrArg (·.bind unpacked) hcopy).trans hunpack
  have hfound : home.find? reportFile = some report.bytes := KeyMap.find?_insert_self _ _ _
  have hverdict := passed_run_iff Memory.engine (.ofSeconds 1) r a
  let failed : XUnit.Suite :=
    { tests := some 1, failures := some 1, cases := some [{ name := some "b", failure := some "" }] }
  refine ⟨by decide +kernel, .head _, ⟨failed, ?_, rfl, _, .head _, rfl⟩, hending, hhome, hverdict.2 ?_⟩
  · exact (XUnit.read_ownReport_eq_ok_iff rfl).2 XUnit.readSuite_failedSuite
  · exact ⟨by decide +kernel, rfl, hending, .inr (.inl ⟨rfl, home, report.bytes, hhome, hfound,
      XUnit.bytes_ne_nil report, hclean⟩)⟩

end Grading

end Proctor
