import Mathlib.Data.List.Forall2
import Proctor.Proofs.SuiteReading

/-!
The results of test cases. A report adds one result for each case, in the order of the document, exactly
when no case holds two problems of one kind; a report with such a case cannot be read, and adds nothing.

Main statement: `results_of_report`.
-/

namespace Proctor.XUnit

open Xml Reading

/-! ### Reports as they are written -/

def labelNames : List String := ["name", "classname", "status"]

def problemKinds : List String := ["failure", "error", "disabled", "skipped"]

def countNames : List String := ["tests", "failures", "disabled", "skipped", "errors"]

/-- The text of an attribute, empty when there is none. -/
def attributeOf (e : Element) (name : String) : String :=
  ((e.tag.attributes.find? (·.toAttribute.fieldName = name)).map fun a =>
    String.ofList (a.value.map Glyph.meaning)).getD ""

def childrenNamed (e : Element) (name : String) : List Element :=
  e.inner.elements.filter (·.localName = name)

/-- A case, in which problems are text alone. -/
structure IsCase (e : Element) : Prop where
  labels : ∀ name ∈ labelNames, e.tag.attributes.countP (·.toAttribute.fieldName = name) ≤ 1
  problems : ∀ kind ∈ problemKinds, ∀ child ∈ childrenNamed e kind, child.inner.elements = []

/-- A suite of cases, of which the counts are numerals of 32 bits. -/
structure IsSuite (e : Element) : Prop where
  counts : ∀ name ∈ countNames, e.tag.attributes.countP (·.toAttribute.fieldName = name) ≤ 1
  numerals : ∀ a ∈ e.tag.attributes, a.toAttribute.fieldName ∈ countNames →
    (Decimal.read? UInt32.size (String.ofList (Glyph.chars a.value))).isSome
  cases : ∀ child ∈ childrenNamed e "testcase", child.tag.name.1 = "testcase".toList ∧ IsCase child

instance (e : Element) : Decidable (IsCase e) :=
  decidable_of_iff
    ((∀ name ∈ labelNames, e.tag.attributes.countP (·.toAttribute.fieldName = name) ≤ 1) ∧
      ∀ kind ∈ problemKinds, ∀ child ∈ childrenNamed e kind, child.inner.elements = [])
    ⟨fun h => ⟨h.1, h.2⟩, fun h => ⟨h.1, h.2⟩⟩

inductive IsReport (root : Element) : Prop
  | suite (hname : root.localName = "testsuite") (h : IsSuite root)
  | suites (hname : root.localName = "testsuites") (h : ∀ child ∈ childrenNamed root "testsuite",
    child.tag.name.1 = "testsuite".toList ∧ IsSuite child)

/-- All cases in the order of the document. -/
def testCases (root : Element) : List Element :=
  if root.localName = "testsuites" then
    (childrenNamed root "testsuite").flatMap (childrenNamed · "testcase")
  else childrenNamed root "testcase"

def titleOf (e : Element) : String :=
  if attributeOf e "classname" = "" then attributeOf e "name"
  else attributeOf e "classname" ++ " -> " ++ attributeOf e "name"

def Passes (e : Element) : Prop :=
  (∀ kind ∈ problemKinds, childrenNamed e kind = []) ∧
    (attributeOf e "status" = "" ∨ attributeOf e "status" = "run")

/-- The result that a case should have. -/
structure ShowsCase (e : Element) (r : TestResult) : Prop where
  name : r.name = titleOf e
  passed_iff : r.outcome = .passed ↔ Passes e

/-- One result for each case is added, in order. -/
def ShowsEachCase (root : Element) (before after : ReportCard) : Prop :=
  ∃ added, after.results = before.results ++ added ∧ List.Forall₂ ShowsCase (testCases root) added

def OneOfEachKind (e : Element) : Prop :=
  ∀ kind ∈ problemKinds, (childrenNamed e kind).length ≤ 1

instance (e : Element) : Decidable (OneOfEachKind e) :=
  inferInstanceAs (Decidable (∀ kind ∈ problemKinds, (childrenNamed e kind).length ≤ 1))

/-! ### Cases -/

theorem labels_name_mem (l : Label) : labels.name l ∈ labelNames := by
  cases l <;> decide

theorem mem_problemKinds_iff {kind : String} : kind ∈ problemKinds ↔ ∃ p, problems.name p = kind := by
  constructor
  · have hall : ∀ kind ∈ problemKinds, ∃ p ∈ problems.all, problems.name p = kind := by decide
    intro h
    obtain ⟨p, -, hp⟩ := hall kind h
    exact ⟨p, hp⟩
  · rintro ⟨p, rfl⟩
    cases p <;> decide

theorem counts_name_mem (c : Count) : counts.name c ∈ countNames := by
  cases c <;> decide

theorem labelText_written (a : WrittenAttribute) :
    labelText a.toAttribute = .ok (String.ofList (a.value.map Glyph.meaning)) := by
  rw [labelText, attributeText, WrittenAttribute.toAttribute, Glyph.unescape_chars]
  rfl

/-- The labels of a case are taken from its attributes. -/
theorem exists_labels {e : Element} (h : IsCase e) : ∃ c : Case,
    (e.tag.attributes.map WrittenAttribute.toAttribute).foldlM
      (labels.take "@" Attribute.fieldName labelText) {} = .ok c ∧
    (∀ p, problems.get p c = none) ∧
    ∀ l, (labels.get l c).getD "" = attributeOf e (labels.name l) := by
  have hvalue : ∀ a ∈ e.tag.attributes.map WrittenAttribute.toAttribute, ∀ l : Label,
      labels.name l = a.fieldName → ∃ text, labelText a = .ok text := by
    intro a ha _ _
    obtain ⟨written, -, rfl⟩ := List.mem_map.1 ha
    exact ⟨_, labelText_written written⟩
  rcases labels.foldlM_take "@" Attribute.fieldName labelText hvalue {} with
    ⟨l, hcount, -⟩ | ⟨-, c, hread, hget⟩
  · have honce := h.labels _ (labels_name_mem l)
    have hempty : labels.get l {} = none := by cases l <;> rfl
    rw [Fields.count, hempty, List.countP_map] at hcount
    simp only [Option.toList_none, List.length_nil, Nat.zero_add] at hcount
    exact absurd hcount (Nat.not_lt.2 honce)
  · refine ⟨c, hread, fun p => ?_, fun l => ?_⟩
    · have hkept := labels.foldlM_take_keeps "@" Attribute.fieldName labelText (problems.get p)
        (fun l _ _ => by cases p <;> cases l <;> rfl) hread
      rw [hkept]
      cases p <;> rfl
    · have hempty : labels.get l {} = none := by cases l <;> rfl
      rw [hget, hempty, Option.none_or, List.find?_map, attributeOf]
      change ((Option.map _ (e.tag.attributes.find? (·.toAttribute.fieldName = labels.name l))).bind _).getD
        "" = _
      cases e.tag.attributes.find? (·.toAttribute.fieldName = labels.name l) with
      | none => rfl
      | some a => simp [labelText_written, Except.toOption]

theorem problem?_eq_none_iff (c : Case) : c.problem? = none ↔
    (∀ p, problems.get p c = none) ∧ (c.status.getD "" = "" ∨ c.status.getD "" = "run") := by
  have hall : (∀ p, problems.get p c = none) ↔
      c.failure = none ∧ c.error = none ∧ c.disabled = none ∧ c.skipped = none := by
    constructor
    · intro h
      exact ⟨h .failure, h .error, h .disabled, h .skipped⟩
    · rintro ⟨hfailure, herror, hdisabled, hskipped⟩ p
      cases p <;> assumption
  have hstatus : c.status.getD "" = "run" ↔ c.status = some "run" := by
    cases c.status <;> simp
  rw [hall, hstatus, Case.problem?]
  cases c.failure <;> cases c.error <;> cases c.disabled <;> cases c.skipped <;>
    simp [or_iff_not_imp_left]

theorem title_eq {c : Case} {e : Element}
    (h : ∀ l, (labels.get l c).getD "" = attributeOf e (labels.name l)) : c.title = titleOf e := by
  have hname : c.name.getD "" = attributeOf e "name" := h .name
  have hclassname : c.classname.getD "" = attributeOf e "classname" := h .classname
  rw [Case.title, titleOf, hname, hclassname]
  split
  case h_1 hempty =>
    rw [if_pos hempty]
  case h_2 classname hne =>
    rw [if_neg hne]
    rfl

/-- What is read of a case settles its result. -/
theorem showsCase_result {c : Case} {e : Element}
    (hlabel : ∀ l, (labels.get l c).getD "" = attributeOf e (labels.name l))
    (hproblem : ∀ p, problems.get p c = none ↔ childrenNamed e (problems.name p) = []) :
    ShowsCase e c.result where
  name := title_eq hlabel
  passed_iff := by
    have hproblems : (∀ p, problems.get p c = none) ↔
        ∀ kind ∈ problemKinds, childrenNamed e kind = [] := by
      simp only [hproblem, mem_problemKinds_iff]
      constructor
      · rintro h _ ⟨p, rfl⟩
        exact h p
      · exact fun h p => h _ ⟨p, rfl⟩
    have hstatus : c.status.getD "" = attributeOf e "status" := hlabel .status
    rw [Passes, ← hproblems, ← hstatus, ← problem?_eq_none_iff, Case.result]
    simp

/-- A case is read with the result that it should have, unless it holds two problems of one kind. -/
theorem readCase_cases {e : Element} (h : IsCase e) :
    (OneOfEachKind e ∧ ∃ c, readCase e = .ok c ∧ ShowsCase e c.result) ∨
      ¬OneOfEachKind e ∧ ∃ kind ∈ problemKinds, readCase e = .error (.repeatedField kind) := by
  obtain ⟨c, hlabels, hempty, htext⟩ := exists_labels h
  have hread : readCase e = e.inner.elements.foldlM (problems.take "" Element.localName problemOf) c := by
    rw [readCase, hlabels]
    rfl
  have hcount (p : Problem) : problems.count Element.localName c e.inner.elements p =
      (childrenNamed e (problems.name p)).length := by
    rw [Fields.count, hempty, childrenNamed, List.countP_eq_length_filter]
    exact Nat.zero_add _
  have hvalue : ∀ child ∈ e.inner.elements, ∀ p, problems.name p = child.localName →
      ∃ text, problemOf child = .ok text := by
    intro child hchild p hp
    exact exists_problemOf (h.problems _ (mem_problemKinds_iff.2 ⟨p, rfl⟩) child
      (List.mem_filter.2 ⟨hchild, decide_eq_true hp.symm⟩))
  rw [hread]
  rcases problems.foldlM_take "" Element.localName problemOf hvalue c with
    ⟨p, hp, herror⟩ | ⟨hone, c', hok, hget⟩
  · have hkind := mem_problemKinds_iff.2 ⟨p, rfl⟩
    rw [hcount] at hp
    refine .inr ⟨fun hone => absurd (hone _ hkind) (Nat.not_le.2 hp), _, hkind, ?_⟩
    rw [herror, String.empty_append]
  · have hlabel (l : Label) : (labels.get l c').getD "" = attributeOf e (labels.name l) := by
      rw [← htext, problems.foldlM_take_keeps _ _ _ (labels.get l)
        (fun p _ _ => by cases p <;> cases l <;> rfl) hok]
    have hproblem (p : Problem) :
        problems.get p c' = none ↔ childrenNamed e (problems.name p) = [] := by
      rw [hget, hempty, Option.none_or, childrenNamed, List.filter_eq_nil_iff, ← List.find?_eq_none]
      cases hfind : e.inner.elements.find? (·.localName = problems.name p) with
      | none => simp
      | some child =>
        have hname : child.localName = problems.name p := by simpa using List.find?_some hfind
        obtain ⟨text, htext⟩ := hvalue child (List.mem_of_find?_eq_some hfind) p hname.symm
        simp [htext, Except.toOption]
    refine .inl ⟨?_, c', hok, showsCase_result hlabel hproblem⟩
    intro kind hkind
    obtain ⟨p, rfl⟩ := mem_problemKinds_iff.1 hkind
    rw [← hcount]
    exact hone p

/-- Cases are read with the results that they should have, unless one holds two problems of one kind. -/
theorem mapM_readCase_cases {l : List Element} (h : ∀ e ∈ l, IsCase e) :
    ((∀ e ∈ l, OneOfEachKind e) ∧
      ∃ cs, l.mapM readCase = .ok cs ∧ List.Forall₂ ShowsCase l (cs.map Case.result)) ∨
    (∃ e ∈ l, ¬OneOfEachKind e) ∧
      ∃ kind ∈ problemKinds, l.mapM readCase = .error (.repeatedField kind) := by
  by_cases hone : ∀ e ∈ l, OneOfEachKind e
  · obtain ⟨cs, hcs, hshows⟩ := exists_mapM_eq_ok (R := fun e (c : Case) => ShowsCase e c.result)
      fun e he => (readCase_cases (h e he)).elim (·.2) fun hnot => absurd (hone e he) hnot.1
    exact .inl ⟨hone, cs, hcs, List.forall₂_map_right_iff.2 hshows⟩
  · simp only [not_forall] at hone
    obtain ⟨e, he, hnot⟩ := hone
    have hbad : ∀ c, readCase e ≠ .ok c := by
      intro c hc
      rcases readCase_cases (h e he) with ⟨hone, -⟩ | ⟨-, kind, -, herror⟩
      · exact hnot hone
      · rw [herror] at hc
        cases hc
    obtain ⟨e', he', fault, hfault, hmapM⟩ := exists_mapM_eq_error ⟨e, he, hbad⟩
    refine .inr ⟨⟨e, he, hnot⟩, ?_⟩
    rcases readCase_cases (h e' he') with ⟨-, c, hok, -⟩ | ⟨-, kind, hkind, herror⟩
    · rw [hfault] at hok
      cases hok
    · rw [hfault] at herror
      cases herror
      exact ⟨kind, hkind, hmapM⟩

/-! ### Suites and reports -/

/-- The cases of a suite are read one by one. -/
theorem map_cases_readSuite {e : Element} (h : IsSuite e) :
    (readSuite e).map (fun s => s.cases.getD []) = (childrenNamed e "testcase").mapM readCase := by
  have hvalue : ∀ a ∈ e.tag.attributes.map WrittenAttribute.toAttribute, ∀ c : Count,
      counts.name c = a.fieldName → ∃ n, countOf a = .ok n := by
    intro a ha c hc
    obtain ⟨written, hwritten, rfl⟩ := List.mem_map.1 ha
    obtain ⟨n, hn⟩ := Option.isSome_iff_exists.1
      (h.numerals written hwritten (hc ▸ counts_name_mem c))
    refine ⟨n, ?_⟩
    simp only [countOf, attributeCount, WrittenAttribute.toAttribute, hn]
  rcases counts.foldlM_take "@" Attribute.fieldName countOf hvalue {} with
    ⟨c, hcount, -⟩ | ⟨-, s, hread, -⟩
  · have honce := h.counts _ (counts_name_mem c)
    have hempty : counts.get c {} = none := by cases c <;> rfl
    rw [Fields.count, hempty, List.countP_map] at hcount
    simp only [Option.toList_none, List.length_nil, Nat.zero_add] at hcount
    exact absurd hcount (Nat.not_lt.2 honce)
  · rw [readSuite, hread, childrenNamed, ← listOf_map_getD _ fun child hchild => (h.cases child hchild).1]
    cases listOf "testcase" readCase e.inner.elements <;> rfl

/-- The cases of a report are read one by one, and the first that cannot be read is the fault. -/
theorem map_casesOf_read {d : Document} (h : IsReport d.root) :
    (read d.bytes).map casesOf = ((testCases d.root).mapM readCase).mapError .xml := by
  cases h with
  | suite hname h =>
    have hne : d.root.localName ≠ "testsuites" := by
      rw [hname]
      decide
    rw [read_document, if_neg hne, if_pos hname, testCases, if_neg hne, ← map_cases_readSuite h]
    cases readSuite d.root with
    | error fault => rfl
    | ok s => simp [Except.map, Except.mapError, casesOf]
  | suites hname h =>
    have hcases := map_flatMap_mapM (l := childrenNamed d.root "testsuite") fun child hchild =>
      map_cases_readSuite (h child hchild).2
    rw [read_document, if_pos hname, testCases, if_pos hname, ← hcases, childrenNamed,
      ← listOf_map_getD _ fun child hchild => (h child hchild).1, readSuites]
    cases listOf "testsuite" readSuite d.root.inner.elements <;> rfl

theorem isCase_of_mem_testCases {root : Element} (h : IsReport root) : ∀ e ∈ testCases root, IsCase e := by
  cases h with
  | suite hname h =>
    have hne : root.localName ≠ "testsuites" := by
      rw [hname]
      decide
    rw [testCases, if_neg hne]
    exact fun e he => (h.cases e he).2
  | suites hname h =>
    rw [testCases, if_pos hname]
    intro e he
    obtain ⟨suite, hsuite, he⟩ := List.mem_flatMap.1 he
    exact ((h suite hsuite).2.cases e he).2

/-- For every report and card, one result for each case is added, in the order of the document, with the
title of the case and passed exactly if it holds no problem and its status is empty or says that it was run,
exactly when no case holds two problems of one kind. A report with such a case is not read: the card fails
with nothing added. -/
theorem results_of_report (d : Document) (h : IsReport d.root) (card : ReportCard) (elapsed : Span) :
    (ShowsEachCase d.root card (addReport card d.bytes elapsed) ↔
      ∀ e ∈ testCases d.root, OneOfEachKind e) ∧
    ((∃ e ∈ testCases d.root, ¬OneOfEachKind e) → ∃ kind ∈ problemKinds,
      addReport card d.bytes elapsed =
        card.fail s!"error parsing unit test results: duplicate field `{kind}`") := by
  have hread := map_casesOf_read h
  rw [addReport_document]
  rcases mapM_readCase_cases (isCase_of_mem_testCases h) with
    ⟨hone, cs, hcs, hshows⟩ | ⟨⟨e, he, hnot⟩, kind, hkind, herror⟩
  · rw [hcs] at hread
    refine ⟨⟨fun _ => hone, fun _ => ?_⟩, fun ⟨e, he, hnot⟩ => absurd (hone e he) hnot⟩
    cases hsuites : read d.bytes with
    | error fault =>
      rw [hsuites] at hread
      cases hread
    | ok suites =>
      rw [hsuites] at hread
      obtain rfl : casesOf suites = cs := Except.ok.inj hread
      exact ⟨_, results_addSuites card suites elapsed, hshows⟩
  · rw [herror] at hread
    cases hsuites : read d.bytes with
    | ok suites =>
      rw [hsuites] at hread
      cases hread
    | error fault =>
      rw [hsuites] at hread
      obtain rfl : fault = .xml (.repeatedField kind) := Except.error.inj hread
      refine ⟨⟨?_, fun hall => absurd (hall e he) hnot⟩, fun _ => ⟨kind, hkind, rfl⟩⟩
      -- A card that failed shows no result, but there is a case.
      rintro ⟨added, hadded, hshows⟩
      obtain rfl : added = [] := List.self_eq_append_right.1 hadded
      rw [List.forall₂_nil_right_iff.1 hshows] at he
      cases he

/-! ### A case with two failures -/

def twiceFailedReport : Document :=
  .plain twiceFailedSuite

theorem isReport_twiceFailed : IsReport twiceFailedReport.root :=
  .suite rfl ⟨by decide, by decide, by decide⟩

theorem twiceFailed_fails_card : ∃ kind ∈ problemKinds,
    addReport .fresh twiceFailedReport.bytes ⟨1500000000⟩ =
      ReportCard.fresh.fail s!"error parsing unit test results: duplicate field `{kind}`" :=
  (results_of_report twiceFailedReport isReport_twiceFailed .fresh ⟨1500000000⟩).2
    ⟨twiceFailed, .head _, by decide⟩

theorem twiceFailed_shows_nothing :
    twiceFailedReport.text = "<testsuite tests=\"1\" failures=\"1\"><testcase classname=\"t\" name=\"a\">" ++
      "<failure>one</failure><failure>two</failure></testcase></testsuite>" ∧
    IsReport twiceFailedReport.root ∧
    ¬ShowsEachCase twiceFailedReport.root .fresh
      (addReport .fresh twiceFailedReport.bytes ⟨1500000000⟩) := by
  refine ⟨by decide +kernel, isReport_twiceFailed, ?_⟩
  have hread : read twiceFailedReport.bytes = .error (.xml (.repeatedField "failure")) := by
    have hroot : twiceFailedReport.root = twiceFailedSuite := rfl
    rw [read_suite rfl, hroot, readSuite_twiceFailedSuite]
    rfl
  rintro ⟨added, hadded, hshows⟩
  rw [addReport_document, hread] at hadded
  obtain rfl : added = [] := hadded.symm
  cases hshows

end Proctor.XUnit
