import Proctor.Proofs.DocumentLists
import Proctor.Proofs.RecordFields
import Proctor.Proofs.ReportVerdict
import Proctor.Proofs.Utf8

/-!
Test reports read from written documents: cases, suites and sequences of suites, each from its own
element.

Main statement: `read_document`.
-/

namespace Proctor.XUnit

open Xml Reading

/-! ### Fields -/

/-- The attributes of a case that count. -/
inductive Label
  | name
  | classname
  | status
  deriving DecidableEq, Repr

def labels : Fields Case Label String where
  all := [.name, .classname, .status]
  name
    | .name => "name"
    | .classname => "classname"
    | .status => "status"
  get
    | .name, c => c.name
    | .classname, c => c.classname
    | .status, c => c.status
  set
    | .name, c, text => { c with name := text }
    | .classname, c, text => { c with classname := text }
    | .status, c, text => { c with status := text }
  mem_all l := by cases l <;> decide
  name_injective l l' h := by cases l <;> cases l' <;> first | rfl | exact absurd h (by decide)
  get_set_self l _ _ := by cases l <;> rfl
  get_set_other l l' _ _ h := by cases l <;> cases l' <;> first | rfl | exact absurd rfl h

/-- The kinds of problems that a case can hold. -/
inductive Problem
  | failure
  | error
  | disabled
  | skipped
  deriving DecidableEq, Repr

def problems : Fields Case Problem String where
  all := [.failure, .error, .disabled, .skipped]
  name
    | .failure => "failure"
    | .error => "error"
    | .disabled => "disabled"
    | .skipped => "skipped"
  get
    | .failure, c => c.failure
    | .error, c => c.error
    | .disabled, c => c.disabled
    | .skipped, c => c.skipped
  set
    | .failure, c, text => { c with failure := text }
    | .error, c, text => { c with error := text }
    | .disabled, c, text => { c with disabled := text }
    | .skipped, c, text => { c with skipped := text }
  mem_all p := by cases p <;> decide
  name_injective p p' h := by cases p <;> cases p' <;> first | rfl | exact absurd h (by decide)
  get_set_self p _ _ := by cases p <;> rfl
  get_set_other p p' _ _ h := by cases p <;> cases p' <;> first | rfl | exact absurd rfl h

/-- The attributes of a suite that count. -/
inductive Count
  | tests
  | failures
  | disabled
  | skipped
  | errors
  deriving DecidableEq, Repr

def counts : Fields Suite Count Nat where
  all := [.tests, .failures, .disabled, .skipped, .errors]
  name
    | .tests => "tests"
    | .failures => "failures"
    | .disabled => "disabled"
    | .skipped => "skipped"
    | .errors => "errors"
  get
    | .tests, s => s.tests
    | .failures, s => s.failures
    | .disabled, s => s.disabled
    | .skipped, s => s.skipped
    | .errors, s => s.errors
  set
    | .tests, s, n => { s with tests := n }
    | .failures, s, n => { s with failures := n }
    | .disabled, s, n => { s with disabled := n }
    | .skipped, s, n => { s with skipped := n }
    | .errors, s, n => { s with errors := n }
  mem_all c := by cases c <;> decide
  name_injective c c' h := by cases c <;> cases c' <;> first | rfl | exact absurd h (by decide)
  get_set_self c _ _ := by cases c <;> rfl
  get_set_other c c' _ _ h := by cases c <;> cases c' <;> first | rfl | exact absurd rfl h

def labelText (a : Attribute) : Except Fault String :=
  attributeText a.value

def countOf (a : Attribute) : Except Fault Nat :=
  attributeCount a.value

/-- A case keeps the attributes with a label, each at most once. -/
theorem Case.takeAttribute_eq (c : Case) (a : Attribute) :
    c.takeAttribute a.fieldName a.value = labels.take "@" Attribute.fieldName labelText c a := by
  rw [Fields.take]
  cases h : labels.named? a.fieldName with
  | none =>
    have hne := labels.named?_eq_none_iff.1 h
    rw [Case.takeAttribute]
    · exact fun h => hne .name h.symm
    · exact fun h => hne .classname h.symm
    · exact fun h => hne .status h.symm
  | some l =>
    rw [← labels.named?_eq_some_iff.1 h]
    cases l <;> rfl

/-- A suite keeps the attributes that count, each at most once. -/
theorem Suite.takeAttribute_eq (s : Suite) (a : Attribute) :
    s.takeAttribute a.fieldName a.value = counts.take "@" Attribute.fieldName countOf s a := by
  rw [Fields.take]
  cases h : counts.named? a.fieldName with
  | none =>
    have hne := counts.named?_eq_none_iff.1 h
    rw [Suite.takeAttribute]
    · exact fun h => hne .tests h.symm
    · exact fun h => hne .failures h.symm
    · exact fun h => hne .disabled h.symm
    · exact fun h => hne .skipped h.symm
    · exact fun h => hne .errors h.symm
  | some l =>
    rw [← counts.named?_eq_some_iff.1 h]
    cases l <;> rfl

/-- A case keeps the children that are problems, each kind at most once. -/
theorem Case.takeChild_eq (c : Case) (name : String) : c.takeChild name =
    (problems.named? name).map fun p => (do
      pure (problems.set p c (← fieldOnce (problems.get p c) (problems.name p) problem))) := by
  cases h : problems.named? name with
  | none =>
    have hne := problems.named?_eq_none_iff.1 h
    rw [Case.takeChild]
    · rfl
    · exact fun h => hne .failure h.symm
    · exact fun h => hne .error h.symm
    · exact fun h => hne .disabled h.symm
    · exact fun h => hne .skipped h.symm
  | some p =>
    rw [← problems.named?_eq_some_iff.1 h]
    cases p <;> rfl

/-! ### Cases -/

/-- The text of a problem, from its element. -/
def problemOf (e : Element) : Except Fault String :=
  (alone (element problemSchema none e.tag.toTag) e.behindStart).map (·.getD "")

theorem problem_keepsTo (e : Element) (ending : Option Fault) (rest : List Markup) :
    problem ⟨.before ending true (e.behindStart ++ rest), [.start e.tag.toTag]⟩ =
      (problemOf e).map (·, ⟨.before ending true rest, []⟩) := by
  obtain ⟨result, hkeeps, -⟩ := exists_element problemSchema e (fun _ _ _ => .unknown rfl) none
  have hnext : nextElement problemSchema none
      ⟨.before ending true (e.behindStart ++ rest), [.start e.tag.toTag]⟩ =
      result.map (·, ⟨.before ending true rest, []⟩) := hkeeps ending rest
  rw [problemOf, ← hkeeps.eq_alone, problem, bind_apply, hnext]
  cases result <;> rfl

/-- A problem of text alone can be read. -/
theorem exists_problemOf {e : Element} (h : e.inner.elements = []) : ∃ text, problemOf e = .ok text := by
  cases hinner : e.inner with
  | last run =>
    have hkeeps := element_text problemSchema none hinner
    rw [problemOf, ← hkeeps.eq_alone, attributes_ignored fun _ _ => rfl, Except.bind, takeRun]
    cases Reader.text? true run.markup with
    | none => exact ⟨"", rfl⟩
    | some chars => exact ⟨String.ofList chars, rfl⟩
  | element =>
    rw [hinner] at h
    cases h

/-- A test case, from its element. -/
def readCase (e : Element) : Except Fault Case := do
  let c ← (e.tag.attributes.map WrittenAttribute.toAttribute).foldlM
    (labels.take "@" Attribute.fieldName labelText) {}
  e.inner.elements.foldlM (problems.take "" Element.localName problemOf) c

theorem takesProblem (c : Case) (container : List Char) (e : Element) :
    TakesChild caseSchema container c e (problems.take "" Element.localName problemOf c e) := by
  have htake : caseSchema.takeChild c container e.localName = _ := c.takeChild_eq e.localName
  rw [Fields.take]
  cases hname : problems.named? e.localName with
  | none =>
    rw [hname] at htake
    exact .unknown htake
  | some p =>
    rw [hname] at htake
    refine .known htake fun ending rest => ?_
    dsimp only
    rw [bind_apply, String.empty_append]
    cases problems.get p c with
    | some text => rfl
    | none =>
      rw [fieldOnce, bind_apply, problem_keepsTo]
      cases problemOf e <;> rfl

/-- A case is read from its own element, whatever follows it. -/
theorem readCase_keepsTo (e : Element) :
    KeepsTo (element caseSchema {} e.tag.toTag) e.behindStart (readCase e) := by
  obtain ⟨result, hkeeps, hresult⟩ := exists_element caseSchema e
    (fun c child _ => takesProblem c _ child) {}
  have hattributes : attributes caseSchema e.tag.toTag {} = _ := attributes_written e.tag
  simp only [caseSchema, Case.takeAttribute_eq] at hattributes
  rwa [hresult fun _ _ => rfl, caseSchema, hattributes] at hkeeps

/-! ### Suites -/

theorem takesList_suite :
    TakesList suiteSchema "testcase" (element caseSchema {}) Suite.cases
      (fun s cases => { s with cases }) where
  takeChild s container name := by
    by_cases h : name = "testcase"
    · subst h
      rfl
    · simp only [suiteSchema, if_neg h]
  takeText _ _ := rfl
  get_set _ _ := rfl
  set_get _ := rfl

/-- A suite, from its element. -/
def readSuite (e : Element) : Except Fault Suite := do
  let s ← (e.tag.attributes.map WrittenAttribute.toAttribute).foldlM
    (counts.take "@" Attribute.fieldName countOf) {}
  (listOf "testcase" readCase e.inner.elements).map fun cases => { s with cases }

/-- A suite is read from its own element, its counts from the tag and its cases from the children. -/
theorem readSuite_keepsTo (e : Element) :
    KeepsTo (element suiteSchema {} e.tag.toTag) e.behindStart (readSuite e) := by
  have hattributes : attributes suiteSchema e.tag.toTag {} = _ := attributes_written e.tag
  simp only [suiteSchema, Suite.takeAttribute_eq] at hattributes
  have hkeeps := list_element (s := {}) takesList_suite readCase_keepsTo e fun s' h => by
    rw [suiteSchema, hattributes] at h
    exact counts.foldlM_take_keeps _ _ _ Suite.cases (fun c _ _ => by cases c <;> rfl) h
  rwa [suiteSchema, hattributes] at hkeeps

theorem takesList_suites :
    TakesList suitesSchema "testsuite" (element suiteSchema {}) id (fun _ suites => suites) where
  takeChild s container name := by
    by_cases h : name = "testsuite"
    · subst h
      simp only [suitesSchema, if_true, bind_pure, id]
    · simp only [suitesSchema, if_neg h]
  takeText _ _ := rfl
  get_set _ _ := rfl
  set_get _ := rfl

/-- Several suites, from the element that holds them. -/
def readSuites (e : Element) : Except Fault (Option (List Suite)) :=
  listOf "testsuite" readSuite e.inner.elements

/-- Under one root all suites are read. -/
theorem readSuites_keepsTo (e : Element) :
    KeepsTo (element suitesSchema none e.tag.toTag) e.behindStart (readSuites e) := by
  have hattributes : attributes suitesSchema e.tag.toTag none = .ok none :=
    attributes_ignored (fun _ _ => rfl) e.tag
  have hkeeps := list_element (s := none) takesList_suites readSuite_keepsTo e fun s' h => by
    rw [hattributes] at h
    cases h
    rfl
  rw [hattributes] at hkeeps
  intro ending rest
  rw [hkeeps ending rest, Except.bind, readSuites]
  cases listOf "testsuite" readSuite e.inner.elements <;> rfl

/-! ### Suites of one case -/

def failureTag : StartTag :=
  .plain "failure" []

def suitesTag : StartTag :=
  .plain "testsuites" []

def passedSuite : Element :=
  .plain (.plain "testsuite" [.plain "tests" "1"]) <|
    .ofElements [.plain (.plain "testcase" [.plain "name" "a"]) (.ofElements [])]

def failedSuite : Element :=
  .plain (.plain "testsuite" [.plain "tests" "1", .plain "failures" "1"]) <| .ofElements
    [.plain (.plain "testcase" [.plain "name" "b"]) (.ofElements [.plain failureTag (.ofElements [])])]

/-- A case of which two expectations failed. -/
def twiceFailed : Element :=
  .plain (.plain "testcase" [.plain "classname" "t", .plain "name" "a"]) <| .ofElements
    [.plain failureTag (.ofText "one"), .plain failureTag (.ofText "two")]

def twiceFailedSuite : Element :=
  .plain (.plain "testsuite" [.plain "tests" "1", .plain "failures" "1"]) (.ofElements [twiceFailed])

theorem readSuite_passedSuite : readSuite passedSuite = .ok
    { tests := some 1, cases := some [{ name := some "a" }] } := by
  decide +kernel

theorem readSuite_failedSuite : readSuite failedSuite = .ok
    { tests := some 1, failures := some 1, cases := some [{ name := some "b", failure := some "" }] } := by
  decide +kernel

theorem readSuite_twiceFailedSuite : readSuite twiceFailedSuite = .error (.repeatedField "failure") := by
  decide +kernel

/-! ### Documents -/

theorem decodeLossy_encode (s : String) : Utf8.decodeLossy (Utf8.encode s) = s := by
  rw [Utf8.decodeLossy, Utf8.scan_encode, List.map_map]
  exact (congrArg String.ofList (List.map_id _)).trans String.ofList_toList

/-- A report is read from the root of its document, by the name of the root. -/
theorem read_document (d : Document) : read d.bytes =
    if d.root.localName = "testsuites" then
      ((readSuites d.root).mapError .xml).map (·.getD [])
    else if d.root.localName = "testsuite" then ((readSuite d.root).mapError .xml).map ([·])
    else .error (.unexpectedRoot d.root.localName) := by
  rw [read, Document.bytes, decodeLossy_encode, suites, rootName_document]
  simp only [run_document d _ (readSuites_keepsTo d.root), run_document d _ (readSuite_keepsTo d.root)]
  change (if d.root.localName = "testsuites" then _ else if d.root.localName = "testsuite" then _ else _) = _
  split
  · cases readSuites d.root <;> rfl
  · split
    · cases readSuite d.root <;> rfl
    · rfl

theorem localName_of_name {e : Element} {name : String} (h : e.tag.name.1 = name.toList)
    (hlocal : localName name.toList = name.toList) : e.localName = name := by
  rw [Element.localName, h, hlocal, String.ofList_toList]

/-- A suite at the root is read alone: nothing behind it counts. -/
theorem read_suite {d : Document} (h : d.root.tag.name.1 = "testsuite".toList) :
    read d.bytes = ((readSuite d.root).mapError .xml).map ([·]) := by
  have hname : d.root.localName = "testsuite" := localName_of_name h (by decide)
  rw [read_document, hname, if_neg (by decide), if_pos rfl]

theorem bytes_ne_nil (d : Document) : d.bytes ≠ [] := by
  intro h
  have htext : d.text = "" := by
    rw [← decodeLossy_encode d.text, ← Document.bytes, h]
    rfl
  have hchars : d.chars = [] := by
    rw [← String.toList_ofList (l := d.chars), ← Document.text, htext]
    rfl
  simp [Document.chars, Element.chars, elementChars] at hchars

/-- A document is never empty, so its card is settled by what is read of it. -/
theorem addReport_document (d : Document) (card : ReportCard) (elapsed : Span) :
    addReport card d.bytes elapsed = match read d.bytes with
      | .ok suites => addSuites card suites elapsed
      | .error fault => card.fail fault.note := by
  have hempty : d.bytes.isEmpty = false := by
    simpa using bytes_ne_nil d
  rw [addReport_eq]
  unfold ReportCard.addRead
  rw [hempty]
  cases read d.bytes <;> rfl

end Proctor.XUnit
