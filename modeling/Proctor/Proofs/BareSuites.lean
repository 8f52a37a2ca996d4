import Mathlib.Data.List.Forall2
import Proctor.Proofs.Decimal
import Proctor.Proofs.SuiteReading

/-!
Suites without a root around them. Only the first of them is read, so the card is that of the same suites
within a root exactly when the first cannot be read or the others have nothing to show.

Main statement: `bare_eq_wrapped_iff`.
-/

namespace Proctor

attribute [ext] ReportCard

theorem Span.colon_not_mem_text (elapsed : Span) : ':' ∉ elapsed.text.toList := by
  have hunit : ':' ∉ elapsed.unit.1.toList := by
    rw [Span.unit]
    split
    · decide
    · split
      · decide
      · split <;> decide
  simp [Span.text, Decimal.not_mem_text, Decimal.not_mem_chars, Decimal.padded, hunit]

namespace XUnit

open Xml Reading

/-! ### Notes -/

section

variable {card : ReportCard} {suites suites' : List Suite} {elapsed : Span}

theorem note_addSuites : (addSuites card suites elapsed).note =
    "Passed " ++ Decimal.text (testsOf suites - failedOf suites) ++ "/" ++ Decimal.text (testsOf suites) ++
      " tests in " ++ elapsed.text := by
  have hkeeps (cases : List Case) (card : ReportCard) : (cases.foldl addCase card).note = card.note := by
    induction cases generalizing card with
    | nil => rfl
    | cons c cases ih =>
      rw [List.foldl_cons, ih, addCase]
      cases c.problem? <;> rfl
  rw [addSuites, hkeeps, testsOf, failedOf]
  rfl

/-- The note tells how many tests there were and how many of them passed. -/
theorem note_addSuites_eq_iff :
    (addSuites card suites elapsed).note = (addSuites card suites' elapsed).note ↔
      testsOf suites - failedOf suites = testsOf suites' - failedOf suites' ∧
        testsOf suites = testsOf suites' := by
  rw [note_addSuites, note_addSuites, String.append_left_inj, String.append_left_inj]
  constructor
  · intro h
    have hslash (n : Nat) := Decimal.not_mem_text (c := '/') rfl n
    have hchars := congrArg String.toList h
    simp only [String.append_assoc, String.toList_append, List.append_cancel_left_eq] at hchars
    obtain ⟨hpassed, htests⟩ := append_separator_inj (hslash _) (hslash _) hchars
    exact ⟨Decimal.text_injective (String.toList_injective hpassed),
      Decimal.text_injective (String.toList_injective htests)⟩
  · rintro ⟨hpassed, htests⟩
    rw [hpassed, htests]

/-- A report that is read leaves another note than one that is not. -/
theorem addSuites_ne_fail (card' : ReportCard) (fault : ReportFault) :
    addSuites card suites elapsed ≠ card'.fail fault.note := by
  intro h
  have hread : ':' ∉ (addSuites card suites elapsed).note.toList := by
    simp [note_addSuites, Decimal.not_mem_text, elapsed.colon_not_mem_text]
  have hfault : ':' ∈ fault.note.toList := by
    have hnote : fault.note = "error parsing unit test results: " ++ fault.message := rfl
    rw [hnote, String.toList_append]
    exact List.mem_append_left _ (by decide)
  apply hread
  rw [h, ReportCard.fail]
  dsimp only
  split
  · exact hfault
  · rw [String.toList_append]
    exact List.mem_append_right _ hfault

end

/-! ### Further suites -/

/-- Suites that show nothing behind another: no case, no test in total, and nothing that went wrong in total
unless that is as much as was tested, with them and without them. -/
structure AddNothing (suite : Suite) (more : List Suite) : Prop where
  cases : ∀ s ∈ more, s.cases.getD [] = []
  tests : testsOf more = 0
  failed : failedOf more = 0 ∨
    testsOf [suite] ≤ failedOf [suite] ∧ testsOf [suite] ≤ failedOf (suite :: more)

/-- A total is kept exactly when nothing is added to it. -/
theorem add_mod_eq_iff {m n k : Nat} (hm : m < k) (hn : n < k) : (m + n) % k = m ↔ n = 0 := by
  constructor
  · intro h
    by_cases hlt : m + n < k
    · rw [Nat.mod_eq_of_lt hlt] at h
      omega
    · rw [Nat.mod_eq_sub_mod (by omega), Nat.mod_eq_of_lt (by omega)] at h
      omega
  · rintro rfl
    exact Nat.mod_eq_of_lt hm

/-- Further suites leave a card as it is exactly if they add nothing. -/
theorem addSuites_cons_eq_iff (card : ReportCard) (suite : Suite) (more : List Suite) (elapsed : Span) :
    addSuites card [suite] elapsed = addSuites card (suite :: more) elapsed ↔ AddNothing suite more := by
  have hcases : casesOf (suite :: more) = casesOf [suite] ++ casesOf more := by
    simp [casesOf]
  have hnone : casesOf more = [] ↔ ∀ s ∈ more, s.cases.getD [] = [] := List.flatMap_eq_nil_iff
  have htests : testsOf (suite :: more) = testsOf [suite] ↔ testsOf more = 0 := by
    rw [← List.singleton_append, testsOf_append]
    exact add_mod_eq_iff (total_lt _) (total_lt _)
  have hfailed : failedOf (suite :: more) = failedOf [suite] ↔ failedOf more = 0 := by
    rw [← List.singleton_append, failedOf_append]
    exact add_mod_eq_iff (total_lt _) (total_lt _)
  constructor
  · intro h
    have hresults := congrArg ReportCard.results h
    rw [results_addSuites, results_addSuites, hcases] at hresults
    obtain ⟨hpassed, hsame⟩ := note_addSuites_eq_iff.1 (congrArg ReportCard.note h)
    refine ⟨hnone.1 (by simpa using hresults), htests.1 hsame.symm, ?_⟩
    rw [← hfailed]
    omega
  · intro h
    have hsame := htests.2 h.tests
    have hpassed : testsOf [suite] - failedOf [suite] =
        testsOf (suite :: more) - failedOf (suite :: more) := by
      rcases h.failed with hzero | ⟨hbefore, hafter⟩
      · rw [hsame, hfailed.2 hzero]
      · omega
    ext1
    · -- A suite that counts a test and nothing that went wrong has as many left as it counts.
      have hcounts : TotalsWell [suite] ↔ TotalsWell (suite :: more) := by
        constructor
        · rintro ⟨hpositive, hzero⟩
          exact ⟨by omega, by omega⟩
        · rintro ⟨hpositive, hzero⟩
          exact ⟨by omega, by omega⟩
      rw [Bool.eq_iff_iff, passed_addSuites_iff, passed_addSuites_iff, hcases, hnone.2 h.cases,
        List.append_nil, hcounts]
    · exact note_addSuites_eq_iff.2 ⟨hpassed, hsame.symm⟩
    · rw [results_addSuites, results_addSuites, hcases, hnone.2 h.cases, List.append_nil]

/-! ### Documents -/

/-- Suites one behind the other, with whatever stands between them and behind them. -/
structure SuiteSequence where
  prolog : Prolog
  first : Element
  rest : Content
  named : ∀ e ∈ first :: rest.elements, e.tag.name.1 = "testsuite".toList

/-- A root that can hold suites, and what comes behind it. -/
structure Wrapper where
  tag : StartTag
  close : Close
  epilog : List Char
  named : tag.name.1 = "testsuites".toList

/-- The suites by themselves. -/
def SuiteSequence.bare (s : SuiteSequence) : Document :=
  ⟨s.prolog, s.first, s.rest.chars⟩

/-- The same suites within a root. -/
def SuiteSequence.wrapped (s : SuiteSequence) (w : Wrapper) : Document :=
  ⟨s.prolog, ⟨w.tag, .element ⟨[], []⟩ s.first.tag s.first.inner s.first.close s.rest, w.close⟩, w.epilog⟩

theorem read_wrapped (s : SuiteSequence) (w : Wrapper) :
    read (s.wrapped w).bytes = ((s.first :: s.rest.elements).mapM readSuite).mapError .xml := by
  have hname : (s.wrapped w).root.localName = "testsuites" := localName_of_name w.named (by decide)
  have helements : (s.wrapped w).root.inner.elements = s.first :: s.rest.elements := rfl
  have hall : (s.first :: s.rest.elements).filter (·.localName = "testsuite") = s.first :: s.rest.elements :=
    List.filter_eq_self.2 fun e he => decide_eq_true (localName_of_name (s.named e he) (by decide))
  have hlist := listOf_map_getD readSuite fun e he => s.named e (List.mem_filter.1 he).1
  rw [hall] at hlist
  rw [read_document, if_pos hname, readSuites, helements, ← hlist]
  cases listOf "testsuite" readSuite (s.first :: s.rest.elements) <;> rfl

/-- One suite as a report of its own. -/
def ownReport (e : Element) : Bytes :=
  (Document.plain e).bytes

theorem read_ownReport_eq_ok_iff {e : Element} {suite : Suite} (h : e.tag.name.1 = "testsuite".toList) :
    read (ownReport e) = .ok [suite] ↔ readSuite e = .ok suite := by
  have hroot : (Document.plain e).root = e := rfl
  rw [ownReport, read_suite h, hroot]
  cases readSuite e <;> simp [Except.map, Except.mapError]

theorem exists_read_ownReport_eq_error_iff {e : Element} (h : e.tag.name.1 = "testsuite".toList) :
    (∃ fault, read (ownReport e) = .error fault) ↔ ∃ fault, readSuite e = .error fault := by
  have hroot : (Document.plain e).root = e := rfl
  rw [ownReport, read_suite h, hroot]
  cases readSuite e <;> simp [Except.map, Except.mapError]

theorem forall₂_read_ownReport_iff (s : SuiteSequence) (more : List Suite) :
    List.Forall₂ (fun e other => read (ownReport e) = .ok [other]) s.rest.elements more ↔
      s.rest.elements.mapM readSuite = .ok more := by
  have hnamed (e : Element) (he : e ∈ s.rest.elements) := s.named e (.tail _ he)
  rw [mapM_eq_ok_iff]
  constructor
  · intro h
    exact ((List.forall₂_and_left _ _).2 ⟨hnamed, h⟩).imp fun e other ⟨hname, hread⟩ =>
      (read_ownReport_eq_ok_iff hname).1 hread
  · intro h
    exact ((List.forall₂_and_left _ _).2 ⟨hnamed, h⟩).imp fun e other ⟨hname, hread⟩ =>
      (read_ownReport_eq_ok_iff hname).2 hread

/-- For every sequence of suites, every card and every time, suites without a root leave the card that they
leave within one exactly if the first cannot be read, or all can be read and those behind the first add
nothing. -/
theorem bare_eq_wrapped_iff (s : SuiteSequence) (w : Wrapper) (card : ReportCard) (elapsed : Span) :
    addReport card s.bare.bytes elapsed = addReport card (s.wrapped w).bytes elapsed ↔
      (∃ fault, read (ownReport s.first) = .error fault) ∨
        ∃ suite more, read (ownReport s.first) = .ok [suite] ∧
          List.Forall₂ (fun e other => read (ownReport e) = .ok [other]) s.rest.elements more ∧
          AddNothing suite more := by
  have hfirst := s.named s.first (.head _)
  have hbare : read s.bare.bytes = ((readSuite s.first).mapError .xml).map ([·]) := read_suite hfirst
  rw [addReport_document, addReport_document, hbare, read_wrapped, List.mapM_cons,
    exists_read_ownReport_eq_error_iff hfirst]
  simp only [read_ownReport_eq_ok_iff hfirst, forall₂_read_ownReport_iff s]
  cases hread : readSuite s.first with
  | error fault => exact ⟨fun _ => .inl ⟨fault, rfl⟩, fun _ => rfl⟩
  | ok suite =>
    simp only [reduceCtorEq, exists_false, false_or, Except.ok.injEq]
    cases hmore : s.rest.elements.mapM readSuite with
    | error fault =>
      -- Some suite behind the first cannot be read, and only the wrapped report fails for it.
      refine ⟨fun h => absurd h (addSuites_ne_fail card (.xml fault)), ?_⟩
      rintro ⟨suite', more, -, hmore', -⟩
      cases hmore'
    | ok more =>
      have hadd := addSuites_cons_eq_iff card suite more elapsed
      constructor
      · intro h
        exact ⟨suite, more, rfl, rfl, hadd.1 h⟩
      · rintro ⟨suite', more', rfl, hmore', h⟩
        cases hmore'
        exact hadd.2 h

/-! ### Two suites of one case -/

def twoSuites : SuiteSequence where
  prolog := ⟨false, .none, []⟩
  first := passedSuite
  rest := .ofElements [failedSuite]
  named := by decide

def plainWrapper : Wrapper where
  tag := suitesTag
  close := ⟨true, .none⟩
  epilog := []
  named := rfl

/-- Without a root the card passes; within one the second suite fails it. -/
theorem bare_ne_wrapped :
    twoSuites.bare.text = "<testsuite tests=\"1\"><testcase name=\"a\"/></testsuite>" ++
      "<testsuite tests=\"1\" failures=\"1\"><testcase name=\"b\"><failure/></testcase></testsuite>" ∧
    (twoSuites.wrapped plainWrapper).text = "<testsuites>" ++ twoSuites.bare.text ++ "</testsuites>" ∧
    (addReport .fresh twoSuites.bare.bytes ⟨1500000000⟩).passed = true ∧
    (addReport .fresh (twoSuites.wrapped plainWrapper).bytes ⟨1500000000⟩).passed = false ∧
    addReport .fresh twoSuites.bare.bytes ⟨1500000000⟩ ≠
      addReport .fresh (twoSuites.wrapped plainWrapper).bytes ⟨1500000000⟩ := by
  have hbare : read twoSuites.bare.bytes = ((readSuite passedSuite).mapError .xml).map ([·]) :=
    read_suite (twoSuites.named _ (.head _))
  have hwrapped : read (twoSuites.wrapped plainWrapper).bytes =
      ([passedSuite, failedSuite].mapM readSuite).mapError .xml := read_wrapped twoSuites plainWrapper
  have hpassed : (addReport .fresh twoSuites.bare.bytes ⟨1500000000⟩).passed = true := by
    rw [addReport_document, hbare, readSuite_passedSuite]
    rfl
  have hfailed : (addReport .fresh (twoSuites.wrapped plainWrapper).bytes ⟨1500000000⟩).passed = false := by
    rw [addReport_document, hwrapped, List.mapM_cons, List.mapM_cons, readSuite_passedSuite,
      readSuite_failedSuite]
    rfl
  refine ⟨by decide +kernel, by decide +kernel, hpassed, hfailed, fun h => ?_⟩
  rw [h, hfailed] at hpassed
  cases hpassed

end XUnit

end Proctor
