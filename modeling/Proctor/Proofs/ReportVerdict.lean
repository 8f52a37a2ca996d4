import Mathlib.Algebra.GroupWithZero.Nat
import Mathlib.Data.List.Basic
import Proctor.Report.Check
import Proctor.Report.XUnit

/-!
What a report does to the card it is added to. Each test adds one result, and a card that passed before
passes after only if the report can be read, counts a test and shows nothing that went wrong.

Main statement: `reports_only_lower`, for every card and all bytes.
-/

namespace Proctor

namespace ReportCard

/-- A card after results were added to it: the earlier ones come first, and one that failed fails it. -/
structure Extends (before after : ReportCard) (added : List TestResult) : Prop where
  results : after.results = before.results ++ added
  passed_iff : after.passed = true ↔ before.passed = true ∧ ∀ r ∈ added, r.outcome = .passed

theorem Extends.refl (card : ReportCard) : card.Extends card [] :=
  ⟨by simp, by simp⟩

theorem Extends.trans {card card' card'' : ReportCard} {added added' : List TestResult}
    (h : card.Extends card' added) (h' : card'.Extends card'' added') :
    card.Extends card'' (added ++ added') where
  results := by rw [h'.results, h.results, List.append_assoc]
  passed_iff := by rw [h'.passed_iff, h.passed_iff, List.forall_mem_append, and_assoc]

/-- Adding items one by one adds their results in order. -/
theorem extends_foldl {α : Type} {add : ReportCard → α → ReportCard} {result : α → TestResult}
    (h : ∀ card a, Extends card (add card a) [result a]) (items : List α) (card : ReportCard) :
    card.Extends (items.foldl add card) (items.map result) := by
  induction items generalizing card with
  | nil => exact .refl card
  | cons a items ih => exact (h card a).trans (ih _)

/-- What a report that is read as `read` may do to a card: results are only added, and the card passes after
exactly when it passed before, the report was read and counts well, and all that was added passed. -/
structure OnlyLowers {α : Type} (before after : ReportCard) (read : Except ReportFault α)
    (CountsWell : α → Prop) : Prop where
  failed : before.passed = false → after.passed = false
  kept : before.results <+: after.results
  passed_iff : after.passed = true ↔ before.passed = true ∧
    (∃ report, read = .ok report ∧ CountsWell report) ∧
    ∀ r ∈ after.results.drop before.results.length, r.outcome = .passed
  unread : ∀ fault, read = .error fault → after.results = before.results ∧ after.passed = false

variable {α : Type} {before after : ReportCard} {read : Except ReportFault α} {CountsWell : α → Prop}

/-- Failing a card is all that a report does that cannot be read. -/
theorem OnlyLowers.of_error {fault : ReportFault} (note : String) (h : read = .error fault) :
    before.OnlyLowers (before.fail note) read CountsWell where
  failed _ := rfl
  kept := List.prefix_rfl
  passed_iff := by simp [fail, h]
  unread _ _ := ⟨rfl, rfl⟩

/-- A report that was read adds its results and passes the card if it counts well. -/
theorem OnlyLowers.of_ok {report : α} {added : List TestResult} (h : read = .ok report)
    (hresults : after.results = before.results ++ added)
    (hpassed : after.passed = true ↔
      before.passed = true ∧ CountsWell report ∧ ∀ r ∈ added, r.outcome = .passed) :
    before.OnlyLowers after read CountsWell where
  failed hfailed := by
    rw [← Bool.not_eq_true, hpassed]
    simp [hfailed]
  kept := ⟨added, hresults.symm⟩
  passed_iff := by
    rw [hpassed, hresults, List.drop_left]
    simp [h]
  unread fault hfault := by
    rw [h] at hfault
    cases hfault

/-- What counts well matters only for a report that is read. -/
theorem OnlyLowers.congr {CountsWell' : α → Prop} (h : before.OnlyLowers after read CountsWell)
    (hiff : ∀ report, read = .ok report → (CountsWell report ↔ CountsWell' report)) :
    before.OnlyLowers after read CountsWell' where
  failed := h.failed
  kept := h.kept
  passed_iff := by
    have hread : (∃ report, read = .ok report ∧ CountsWell report) ↔
        ∃ report, read = .ok report ∧ CountsWell' report :=
      exists_congr fun report => and_congr_right (hiff report)
    rw [h.passed_iff, hread]
  unread := h.unread

/-- Reports of both forms are added in one way: an empty one and one that cannot be read fail the card. -/
def addRead (card : ReportCard) (contents : Bytes) (read : Except ReportFault α)
    (add : α → ReportCard) : ReportCard :=
  if contents.isEmpty then card.fail noResults
  else
    match read with
    | .error fault => card.fail fault.note
    | .ok report => add report

theorem addRead_of_ok {contents : Bytes} {add : α → ReportCard} {report : α}
    (hempty : contents = [] → ∃ fault, read = .error fault) (h : read = .ok report) :
    before.addRead contents read add = add report := by
  cases contents with
  | nil =>
    obtain ⟨fault, hfault⟩ := hempty rfl
    rw [h] at hfault
    cases hfault
  | cons b contents => simp [addRead, h]

/-- A report that cannot be read fails the card, with one note or another. -/
theorem exists_addRead_of_error (before : ReportCard) (contents : Bytes) (add : α → ReportCard)
    {fault : ReportFault} (h : read = .error fault) :
    ∃ note, before.addRead contents read add = before.fail note := by
  cases contents with
  | nil => exact ⟨noResults, rfl⟩
  | cons b contents =>
    refine ⟨fault.note, ?_⟩
    simp [addRead, h]

/-- Adding a report only lowers if adding what was read of it does. -/
theorem onlyLowers_addRead {contents : Bytes} {add : α → ReportCard}
    (hempty : contents = [] → ∃ fault, read = .error fault)
    (hadd : ∀ report, before.OnlyLowers (add report) (.ok report) CountsWell) :
    before.OnlyLowers (before.addRead contents read add) read CountsWell := by
  cases h : read with
  | error fault =>
    obtain ⟨note, hcard⟩ := exists_addRead_of_error before contents add h
    rw [← h, hcard]
    exact .of_error note h
  | ok report =>
    rw [← h, addRead_of_ok hempty h, h]
    exact hadd report

end ReportCard

namespace XUnit

/-- The suites of a report that consists of bytes. -/
def read (contents : Bytes) : Except ReportFault (List Suite) :=
  suites (Utf8.decodeLossy contents)

/-- All test cases of a report in the order of its suites. -/
def casesOf (suites : List Suite) : List Case :=
  suites.flatMap fun s => s.cases.getD []

/-- The result of a test case. -/
def Case.result (c : Case) : TestResult where
  name := c.title
  outcome := if c.problem? = none then .passed else .failed
  details := c.problem?.getD ""
  context := (c.problem?.map Location.ofFailure).getD ""

/-- A suite that counts nothing that went wrong. -/
structure Suite.CountsNone (s : Suite) : Prop where
  failures : s.failures.getD 0 = 0
  errors : s.errors.getD 0 = 0
  disabled : s.disabled.getD 0 = 0
  skipped : s.skipped.getD 0 = 0

/-- Suites that count a test, and nothing that went wrong. -/
structure CountsWell (suites : List Suite) : Prop where
  tests : ∃ s ∈ suites, 0 < s.tests.getD 0
  none : ∀ s ∈ suites, s.CountsNone

/-! ### Totals -/

def testsOf (suites : List Suite) : Nat :=
  total (suites.map fun s => s.tests.getD 0)

def failedOf (suites : List Suite) : Nat :=
  total (suites.map Suite.failed)

/-- Suites whose totals in 32 bits are those of a test, and of nothing that went wrong. -/
structure TotalsWell (suites : List Suite) : Prop where
  tests : 0 < testsOf suites
  none : failedOf suites = 0

/-- All that went wrong by the counts of a suite, however much that is. -/
def Suite.troubles (s : Suite) : Nat :=
  s.failures.getD 0 + s.disabled.getD 0 + s.skipped.getD 0 + s.errors.getD 0

/-- Suites whose counts can be added in 32 bits. -/
structure SumsFit (suites : List Suite) : Prop where
  tests : (suites.map fun s => s.tests.getD 0).sum < UInt32.size
  troubles : (suites.map Suite.troubles).sum < UInt32.size

/-- A total is the sum modulo 2 ^ 32, however often it wraps around. -/
theorem total_eq (counts : List Nat) : total counts = counts.sum % UInt32.size := by
  -- The running total is below the modulus, and so is congruent to the sum of what it has passed.
  have hfold (start : Nat) : counts.foldl (fun sum n => (sum + n) % UInt32.size) (start % UInt32.size) =
      (start + counts.sum) % UInt32.size := by
    induction counts generalizing start with
    | nil => rfl
    | cons n counts ih => rw [List.foldl_cons, Nat.mod_add_mod, ih, List.sum_cons, Nat.add_assoc]
  simpa [total] using hfold 0

theorem total_lt (counts : List Nat) : total counts < UInt32.size := by
  rw [total_eq]
  exact Nat.mod_lt _ (by decide)

/-- A sum that fits is the total. -/
theorem total_of_lt {counts : List Nat} (h : counts.sum < UInt32.size) : total counts = counts.sum := by
  rw [total_eq, Nat.mod_eq_of_lt h]

theorem total_append (counts counts' : List Nat) :
    total (counts ++ counts') = (total counts + total counts') % UInt32.size := by
  simp only [total_eq, List.sum_append, Nat.add_mod_mod, Nat.mod_add_mod]

theorem testsOf_append (suites suites' : List Suite) :
    testsOf (suites ++ suites') = (testsOf suites + testsOf suites') % UInt32.size := by
  rw [testsOf, List.map_append, total_append, testsOf, testsOf]

theorem failedOf_append (suites suites' : List Suite) :
    failedOf (suites ++ suites') = (failedOf suites + failedOf suites') % UInt32.size := by
  rw [failedOf, List.map_append, total_append, failedOf, failedOf]

/-- What went wrong in one suite wraps around too. -/
theorem Suite.failed_eq (s : Suite) : s.failed = s.troubles % UInt32.size := by
  rw [Suite.failed, total_eq, Suite.troubles]
  simp only [List.sum_cons, List.sum_nil, Nat.add_zero, Nat.add_assoc]

/-- What is lost in adding up a suite is lost in the total anyway. -/
theorem failedOf_eq (suites : List Suite) :
    failedOf suites = (suites.map Suite.troubles).sum % UInt32.size := by
  rw [failedOf, total_eq]
  induction suites with
  | nil => rfl
  | cons s suites ih =>
    rw [List.map_cons, List.map_cons, List.sum_cons, List.sum_cons, Nat.add_mod, ih, s.failed_eq,
      Nat.mod_mod, ← Nat.add_mod]

/-- A suite counts nothing that went wrong exactly if its troubles add up to none. -/
theorem countsNone_iff (s : Suite) : s.CountsNone ↔ s.troubles = 0 := by
  unfold Suite.troubles
  constructor
  · intro h
    rw [h.failures, h.errors, h.disabled, h.skipped]
  · intro h
    exact ⟨by omega, by omega, by omega, by omega⟩

/-- Totals that fit tell what the suites count. -/
theorem totalsWell_iff {suites : List Suite} (h : SumsFit suites) :
    TotalsWell suites ↔ CountsWell suites := by
  have htests : 0 < testsOf suites ↔ ∃ s ∈ suites, 0 < s.tests.getD 0 := by
    rw [testsOf, total_of_lt h.tests, Nat.pos_iff_ne_zero, ne_eq, List.sum_eq_zero_iff_forall_eq_nat]
    simp [Nat.pos_iff_ne_zero]
  have hnone : failedOf suites = 0 ↔ ∀ s ∈ suites, s.CountsNone := by
    rw [failedOf_eq, Nat.mod_eq_of_lt h.troubles, List.sum_eq_zero_iff_forall_eq_nat]
    simp [countsNone_iff]
  constructor
  · intro hwell
    exact ⟨htests.1 hwell.tests, hnone.1 hwell.none⟩
  · intro hwell
    exact ⟨htests.2 hwell.tests, hnone.2 hwell.none⟩

/-- Without that, failures can add up to none. -/
example : TotalsWell [{ tests := some 1, failures := some 4294967295, errors := some 1 }] :=
  ⟨by decide, by decide⟩

theorem extends_addCase (card : ReportCard) (c : Case) : card.Extends (addCase card c) [c.result] := by
  unfold addCase Case.result
  cases hproblem : c.problem? with
  | none => exact ⟨rfl, by simp [ReportCard.addPassed]⟩
  | some text => exact ⟨rfl, by simp [ReportCard.addFailed]⟩

theorem exists_read_nil {contents : Bytes} (h : contents = []) :
    ∃ fault, read contents = .error fault :=
  ⟨.unexpectedRoot "", by rw [h]; rfl⟩

section AddReport

variable (card : ReportCard) (suites : List Suite) (contents : Bytes) (elapsed : Span)

theorem results_addSuites :
    (addSuites card suites elapsed).results = card.results ++ (casesOf suites).map Case.result :=
  (ReportCard.extends_foldl extends_addCase (casesOf suites) _).results

/-- The card passes after if it passed before, the totals are well and every case passed. -/
theorem passed_addSuites_iff :
    (addSuites card suites elapsed).passed = true ↔ card.passed = true ∧ TotalsWell suites ∧
      ∀ r ∈ (casesOf suites).map Case.result, r.outcome = .passed := by
  have hextends (before : ReportCard) :=
    (ReportCard.extends_foldl extends_addCase (casesOf suites) before).passed_iff
  have hwell : TotalsWell suites ↔ 0 < testsOf suites ∧ failedOf suites = 0 :=
    ⟨fun h => ⟨h.tests, h.none⟩, fun h => ⟨h.1, h.2⟩⟩
  rw [addSuites, ← casesOf, hextends, hwell, testsOf, failedOf]
  simp only [Bool.and_eq_true, decide_eq_true_eq, beq_iff_eq, and_assoc]

theorem addReport_eq :
    addReport card contents elapsed =
      card.addRead contents (read contents) (addSuites card · elapsed) := by
  unfold addReport ReportCard.addRead read
  cases XUnit.suites (Utf8.decodeLossy contents) <;> rfl

theorem onlyLowers_addReport :
    card.OnlyLowers (addReport card contents elapsed) (read contents) TotalsWell := by
  rw [addReport_eq]
  apply ReportCard.onlyLowers_addRead exists_read_nil
  intro suites
  exact .of_ok rfl (results_addSuites card suites elapsed) (passed_addSuites_iff card suites elapsed)

end AddReport

end XUnit

namespace Check

/-- The tests of a report that consists of bytes. -/
def read (contents : Bytes) : Except ReportFault (List Test) :=
  tests (Utf8.decodeLossy contents)

def Test.graded (t : Test) : TestResult where
  name := t.id.getD ""
  outcome := if t.succeeded then .passed else .failed
  details := t.message.getD ""
  context := if t.succeeded then "" else t.function.getD ""

/-- Tests of which one succeeded and none did not. -/
structure CountsWell (tests : List Test) : Prop where
  some : ∃ t ∈ tests, t.result = some "success"
  all : ∀ t ∈ tests, t.result = .some "success"

theorem extends_addTest (card : ReportCard) (t : Test) : card.Extends (addTest card t) [t.graded] := by
  unfold addTest Test.graded
  cases t.succeeded with
  | true => exact ⟨rfl, by simp [ReportCard.addPassed]⟩
  | false => exact ⟨rfl, by simp [ReportCard.addFailed]⟩

theorem exists_read_nil {contents : Bytes} (h : contents = []) :
    ∃ fault, read contents = .error fault :=
  ⟨.unexpectedRoot "", by rw [h]; rfl⟩

section AddReport

variable (card : ReportCard) (tests : List Test) (contents : Bytes) (elapsed : Span)

theorem results_addTests :
    (addTests card tests elapsed).results = card.results ++ tests.map Test.graded :=
  (ReportCard.extends_foldl extends_addTest tests card).results

/-- The card passes after if it passed before and all tests succeeded, one at least. -/
theorem passed_addTests_iff :
    (addTests card tests elapsed).passed = true ↔ card.passed = true ∧ CountsWell tests ∧
      ∀ r ∈ tests.map Test.graded, r.outcome = .passed := by
  have hextends := (ReportCard.extends_foldl extends_addTest tests card).passed_iff
  have hall : tests.countP Test.succeeded = tests.length ↔ ∀ t ∈ tests, t.result = some "success" := by
    simp [List.countP_eq_length, Test.succeeded]
  have hsome : 0 < tests.countP Test.succeeded ↔ ∃ t ∈ tests, t.result = some "success" := by
    simp [List.countP_pos_iff, Test.succeeded]
  simp only [addTests, Bool.and_eq_true, decide_eq_true_eq, beq_iff_eq, hextends, hall, hsome]
  constructor
  · rintro ⟨⟨⟨hpassed, hresults⟩, hsome⟩, hall⟩
    exact ⟨hpassed, ⟨hsome, hall⟩, hresults⟩
  · rintro ⟨hpassed, ⟨hsome, hall⟩, hresults⟩
    exact ⟨⟨⟨hpassed, hresults⟩, hsome⟩, hall⟩

theorem addReport_eq :
    addReport card contents elapsed =
      card.addRead contents (read contents) (addTests card · elapsed) := by
  unfold addReport ReportCard.addRead read
  cases Check.tests (Utf8.decodeLossy contents) <;> rfl

theorem onlyLowers_addReport :
    card.OnlyLowers (addReport card contents elapsed) (read contents) CountsWell := by
  rw [addReport_eq]
  apply ReportCard.onlyLowers_addRead exists_read_nil
  intro tests
  exact .of_ok rfl (results_addTests card tests elapsed) (passed_addTests_iff card tests elapsed)

end AddReport

end Check

/-- A report of either form, whatever its bytes, only lowers a card. A failed card stays failed, the earlier
results stay the first ones, and a card that passes after passed before, on a report whose totals are those of
a test and of nothing that went wrong and whose results all passed. As long as the counts can be added in 32
bits, such a report counts a test and none that went wrong. A report that cannot be read adds nothing and fails
the card. -/
theorem reports_only_lower (card : ReportCard) (contents : Bytes) (elapsed : Span) :
    card.OnlyLowers (XUnit.addReport card contents elapsed) (XUnit.read contents) XUnit.TotalsWell ∧
      ((∀ suites, XUnit.read contents = .ok suites → XUnit.SumsFit suites) →
        card.OnlyLowers (XUnit.addReport card contents elapsed) (XUnit.read contents) XUnit.CountsWell) ∧
      card.OnlyLowers (Check.addReport card contents elapsed) (Check.read contents) Check.CountsWell := by
  have hlowers := XUnit.onlyLowers_addReport card contents elapsed
  refine ⟨hlowers, fun hfits => ?_, Check.onlyLowers_addReport card contents elapsed⟩
  exact hlowers.congr fun suites hread => XUnit.totalsWell_iff (hfits suites hread)

/-- A failure among two tests fails the card, also where the one case that is shown passed. -/
theorem counted_failure_lowers :
    let contents := Utf8.encode "<testsuite tests=\"2\" failures=\"1\"><testcase name=\"a\"/></testsuite>"
    let card := XUnit.addReport .fresh contents ⟨1500000000⟩
    (∃ suites, XUnit.read contents = .ok suites ∧ XUnit.SumsFit suites) ∧
      card.passed = false ∧ card.results.map (·.outcome) = [.passed] := by
  intro contents card
  let suite : XUnit.Suite :=
    { tests := some 2, failures := some 1, cases := some [{ name := some "a" }] }
  have hread : XUnit.read contents = .ok [suite] := by decide +kernel
  have hfits : XUnit.SumsFit [suite] := ⟨by decide, by decide⟩
  obtain ⟨-, hlowers, -⟩ := reports_only_lower .fresh contents ⟨1500000000⟩
  have hcard := hlowers fun suites h => by
    rw [hread] at h
    cases h
    exact hfits
  refine ⟨⟨_, hread, hfits⟩, ?_, ?_⟩
  · rw [← Bool.not_eq_true, hcard.passed_iff]
    rintro ⟨-, ⟨suites, h, hwell⟩, -⟩
    rw [hread] at h
    cases h
    exact absurd (hwell.none suite (.head _)).failures (by decide)
  · decide +kernel

end Proctor
