import Proctor.Proofs.NearestNumber
import Proctor.Report.Card

/-!
Report cards by the changes that are made to them. One change says what becomes of the verdict and of the
results, and a card that is built by changes keeps to them. The exact score of a card is the share of its
passed results once it has failed, and the score is this share rounded.

Main statement: `score_of_changes`, for every sequence of changes.
-/

namespace Proctor

namespace Binary64

/-- The number before one is less than one by the last of 53 bits. -/
theorem sizeAt_before_one : sizeAt (one.magnitude - 1) = 1 - 1 / (2 * binade) := by
  have hplace : one.magnitude - 1 = 1021 * binade + (2 * binade - 1) := by decide
  have hspacing : spacing 1021 = 1 / (2 * binade) := by
    norm_num [spacing, binade]
  have hne : (2 * binade : ℚ) ≠ 0 := by norm_num [binade]
  rw [hplace, sizeAt_place (by decide) (.inr (by decide)), hspacing, Nat.cast_sub (by decide)]
  push_cast
  rw [sub_mul, mul_one_div_cancel hne, one_mul]

theorem Nearest.lt_one {v : ℚ} {m : Nat} (h : Nearest v m) (hv : v ≤ 1 - 1 / (2 * binade)) :
    m < one.magnitude := by
  have hle := h.mono (nearest_sizeAt (one.magnitude - 1)) (sizeAt_before_one ▸ hv)
  have hone : 0 < one.magnitude := by decide
  omega

end Binary64

namespace ReportCard

/-! ### Changes -/

/-- What is done to a card. -/
inductive Change
  | fail (note : String)
  | logAndFail (note : String)
  | addPassed (name details : String)
  | addFailed (name details context : String)

namespace Change

/-- The log is no part of the card. -/
def apply (card : ReportCard) : Change → ReportCard
  | .fail note | .logAndFail note => card.fail note
  | .addPassed name details => card.addPassed name details
  | .addFailed name details context => card.addFailed name details context

/-- All changes but a passed result fail the card. -/
def Fails : Change → Prop
  | .fail _ | .logAndFail _ | .addFailed .. => True
  | .addPassed .. => False

/-- The result that a change adds. -/
def result? : Change → Option TestResult
  | .fail _ | .logAndFail _ => none
  | .addPassed name details => some { name, outcome := .passed, details }
  | .addFailed name details context => some { name, outcome := .failed, details, context }

theorem fails_of_failed {change : Change} {r : TestResult} (h : change.result? = some r)
    (hfailed : r.outcome = .failed) : change.Fails := by
  cases change with
  | fail note => trivial
  | logAndFail note => trivial
  | addPassed name details =>
    cases h
    cases hfailed
  | addFailed name details context => trivial

end Change

def ofChanges (changes : List Change) : ReportCard :=
  changes.foldl Change.apply fresh

/-- A card shows the changes that were made to it: whether one of them failed it, and what they added. -/
structure Shows (card : ReportCard) (changes : List Change) : Prop where
  passed_iff : card.passed = true ↔ ∀ change ∈ changes, ¬change.Fails
  results : card.results = changes.filterMap Change.result?

theorem shows_fresh : fresh.Shows [] :=
  ⟨by simp [fresh], rfl⟩

variable {card : ReportCard} {changes : List Change}

theorem Shows.apply (h : card.Shows changes) (change : Change) :
    (change.apply card).Shows (changes ++ [change]) := by
  have hpassed : (change.apply card).passed = true ↔ card.passed = true ∧ ¬change.Fails := by
    cases change <;> simp [Change.apply, Change.Fails, fail, addPassed, addFailed]
  have hresults : (change.apply card).results = card.results ++ change.result?.toList := by
    cases change <;> simp [Change.apply, Change.result?, fail, addPassed, addFailed]
  constructor
  · rw [hpassed, h.passed_iff]
    simp [or_imp, forall_and]
  · rw [hresults, h.results, List.filterMap_append]
    cases hresult : change.result? <;> simp [hresult]

theorem Shows.applyAll (h : card.Shows changes) (further : List Change) :
    (further.foldl Change.apply card).Shows (changes ++ further) := by
  induction further generalizing card changes with
  | nil => simpa using h
  | cons change further ih => simpa using ih (h.apply change)

theorem shows_ofChanges (changes : List Change) : (ofChanges changes).Shows changes :=
  shows_fresh.applyAll changes

theorem Shows.not_passed (h : card.Shows changes) {r : TestResult} (hr : r ∈ card.results)
    (hfailed : r.outcome = .failed) : card.passed = false := by
  rw [h.results] at hr
  obtain ⟨change, hmem, hresult⟩ := List.mem_filterMap.1 hr
  rw [← Bool.not_eq_true, h.passed_iff]
  intro hnone
  exact hnone change hmem (Change.fails_of_failed hresult hfailed)

/-! ### The exact score -/

/-- The score before it is rounded. -/
def exactScore (card : ReportCard) : ℚ :=
  if card.passed then 1
  else if card.results.isEmpty then 0
  else card.passedCount / card.results.length

theorem exactScore_of_passed (h : card.passed = true) : card.exactScore = 1 :=
  if_pos h

/-- Without results the share is zero, too. -/
theorem exactScore_of_failed (h : card.passed = false) :
    card.exactScore = card.passedCount / card.results.length := by
  rw [exactScore, if_neg (by simp [h])]
  split
  · rename_i hempty
    rw [List.isEmpty_iff.1 hempty]
    simp
  · rfl

theorem passedCount_le (card : ReportCard) : card.passedCount ≤ card.results.length :=
  List.length_filter_le ..

theorem passedCount_eq_length_iff :
    card.passedCount = card.results.length ↔ ∀ r ∈ card.results, r.outcome = .passed := by
  simp [passedCount, List.length_filter_eq_length_iff]

theorem passedCount_addPassed (card : ReportCard) (name details : String) :
    (card.addPassed name details).passedCount = card.passedCount + 1 := by
  simp [passedCount, addPassed]

theorem passedCount_addFailed (card : ReportCard) (name details context : String) :
    (card.addFailed name details context).passedCount = card.passedCount := by
  simp [passedCount, addFailed]

theorem exactScore_nonneg (card : ReportCard) : 0 ≤ card.exactScore := by
  cases h : card.passed with
  | true =>
    rw [exactScore_of_passed h]
    exact zero_le_one
  | false =>
    rw [exactScore_of_failed h]
    positivity

theorem exactScore_le_one (card : ReportCard) : card.exactScore ≤ 1 := by
  cases h : card.passed with
  | true => rw [exactScore_of_passed h]
  | false =>
    rw [exactScore_of_failed h]
    apply div_le_one_of_le₀
    · exact_mod_cast card.passedCount_le
    · positivity

theorem exactScore_eq_one_iff :
    card.exactScore = 1 ↔
      card.passed = true ∨ card.results ≠ [] ∧ ∀ r ∈ card.results, r.outcome = .passed := by
  cases h : card.passed with
  | true => simp [exactScore_of_passed h]
  | false =>
    rw [exactScore_of_failed h, ← passedCount_eq_length_iff]
    by_cases hempty : card.results = []
    · simp [hempty]
    · have hlength : (card.results.length : ℚ) ≠ 0 := by simpa using hempty
      rw [div_eq_one_iff_eq hlength, Nat.cast_inj]
      simp [hempty]

theorem exactScore_le_addPassed (h : card.passed = false) (name details : String) :
    card.exactScore ≤ (card.addPassed name details).exactScore := by
  have hle : (card.passedCount : ℚ) ≤ card.results.length := by exact_mod_cast card.passedCount_le
  have hafter : (card.addPassed name details).passed = false := h
  have hlength : (card.addPassed name details).results.length = card.results.length + 1 := by
    simp [addPassed]
  rw [exactScore_of_failed h, exactScore_of_failed hafter, passedCount_addPassed, hlength]
  rcases Nat.eq_zero_or_pos card.results.length with hzero | hpos
  · rw [hzero, Nat.cast_zero, div_zero]
    positivity
  · have hpos' : (0 : ℚ) < card.results.length := by exact_mod_cast hpos
    push_cast
    rw [div_le_div_iff₀ hpos' (by positivity)]
    linarith

theorem exactScore_addFailed_le (card : ReportCard) (name details context : String) :
    (card.addFailed name details context).exactScore ≤ card.exactScore := by
  have hafter : (card.addFailed name details context).passed = false := rfl
  have hlength : (card.addFailed name details context).results.length = card.results.length + 1 := by
    simp [addFailed]
  cases h : card.passed with
  | true =>
    rw [exactScore_of_passed h]
    exact exactScore_le_one _
  | false =>
    rw [exactScore_of_failed h, exactScore_of_failed hafter, passedCount_addFailed, hlength]
    rcases Nat.eq_zero_or_pos card.results.length with hzero | hpos
    · have hcount : card.passedCount = 0 := Nat.le_zero.1 (hzero ▸ card.passedCount_le)
      rw [hcount, Nat.cast_zero, zero_div, zero_div]
    · have hpos' : (0 : ℚ) < card.results.length := by exact_mod_cast hpos
      push_cast
      gcongr
      linarith

/-! ### Rounding -/

theorem score_of_passed (h : card.passed = true) : card.score = .one :=
  if_pos h

/-- As long as the counts are not rounded, the score is the number nearest to the exact one. -/
theorem nearest_score (hlength : card.results.length ≤ 2 * Binary64.binade) :
    card.score.negative = false ∧ Binary64.Nearest card.exactScore card.score.magnitude := by
  cases h : card.passed with
  | true =>
    rw [score_of_passed h, exactScore_of_passed h, ← Binary64.size_one]
    exact ⟨rfl, Binary64.nearest_sizeAt _⟩
  | false =>
    rw [exactScore_of_failed h, score, if_neg (by simp [h])]
    split
    · rename_i hempty
      rw [List.isEmpty_iff.1 hempty, List.length_nil, Nat.cast_zero, div_zero]
      exact ⟨rfl, Binary64.nearest_zero⟩
    · rename_i hresults
      have hpos : 0 < card.results.length := by
        rwa [List.length_pos_iff, ne_eq, ← List.isEmpty_iff]
      have hspec := Binary64.divNat_spec card.passedCount hpos
      rwa [Binary64.size_ofNat_of_le (card.passedCount_le.trans hlength),
        Binary64.size_ofNat_of_le hlength] at hspec

/-- With at most `2 ^ 53` results a score that is not full is at most the number before one. -/
theorem exactScore_le_of_ne_one (hlength : card.results.length ≤ 2 * Binary64.binade)
    (hne : card.exactScore ≠ 1) : card.exactScore ≤ 1 - 1 / (2 * Binary64.binade) := by
  have hfailed : card.passed = false := by
    rw [← Bool.not_eq_true]
    exact fun hpassed => hne (exactScore_of_passed hpassed)
  rw [exactScore_of_failed hfailed] at hne ⊢
  rcases Nat.eq_zero_or_pos card.results.length with hzero | hpos
  · rw [hzero, Nat.cast_zero, div_zero]
    norm_num [Binary64.binade]
  · have hpos' : (0 : ℚ) < card.results.length := by exact_mod_cast hpos
    have hlength' : (card.results.length : ℚ) ≤ 2 * Binary64.binade := by exact_mod_cast hlength
    have hcount : card.passedCount ≠ card.results.length := by
      intro he
      rw [he, div_self hpos'.ne'] at hne
      exact hne rfl
    -- one result is missing, and it is worth at least the last of 53 bits
    have hless : (card.passedCount : ℚ) + 1 ≤ card.results.length := by
      exact_mod_cast lt_of_le_of_ne card.passedCount_le hcount
    calc (card.passedCount : ℚ) / card.results.length ≤ 1 - 1 / card.results.length := by
          rw [div_le_iff₀ hpos', sub_mul, one_mul, one_div_mul_cancel hpos'.ne']
          linarith
      _ ≤ 1 - 1 / (2 * Binary64.binade) := by gcongr

/-- Rounding makes no full score of a lesser one. -/
theorem score_eq_one_iff (hlength : card.results.length ≤ 2 * Binary64.binade) :
    card.score = .one ↔ card.exactScore = 1 := by
  obtain ⟨hnegative, hnearest⟩ := nearest_score hlength
  constructor
  · intro hone
    by_contra hne
    have hless := hnearest.lt_one (exactScore_le_of_ne_one hlength hne)
    rw [hone] at hless
    exact lt_irrefl _ hless
  · intro hone
    rw [hone, ← Binary64.size_one] at hnearest
    exact Binary64.ext_parts hnegative (hnearest.unique (Binary64.nearest_sizeAt _))

/-- A card that is built by changes passes exactly when none of them fails it, and its results are those
that they added, in order; with a failed result it never passes. Its exact score lies between zero and one,
and it is one exactly when the card passes or has results that all passed. A passed result does not lower
the score of a failed card, and a failed result does not raise the score of any. With at most `2 ^ 53`
results the score is the exact one, rounded once, and it is full only when the exact one is. -/
theorem score_of_changes (changes : List Change) :
    let card := ofChanges changes
    (card.passed = true ↔ ∀ change ∈ changes, ¬change.Fails) ∧
    card.results = changes.filterMap Change.result? ∧
    (∀ r ∈ card.results, r.outcome = .failed → card.passed = false) ∧
    (0 ≤ card.exactScore ∧ card.exactScore ≤ 1) ∧
    (card.exactScore = 1 ↔
      card.passed = true ∨ card.results ≠ [] ∧ ∀ r ∈ card.results, r.outcome = .passed) ∧
    (card.passed = false → ∀ name details,
      card.exactScore ≤ (card.addPassed name details).exactScore) ∧
    (∀ name details context, (card.addFailed name details context).exactScore ≤ card.exactScore) ∧
    (card.results.length ≤ 2 ^ 53 →
      card.score.negative = false ∧ Binary64.Nearest card.exactScore card.score.magnitude ∧
        (card.score = .one ↔ card.exactScore = 1)) := by
  intro card
  have hshows := shows_ofChanges changes
  refine ⟨hshows.passed_iff, hshows.results, fun _ => hshows.not_passed,
    ⟨exactScore_nonneg card, exactScore_le_one card⟩, exactScore_eq_one_iff, exactScore_le_addPassed,
    exactScore_addFailed_le card, ?_⟩
  intro hlength
  obtain ⟨hnegative, hnearest⟩ := nearest_score hlength
  exact ⟨hnegative, hnearest, score_eq_one_iff hlength⟩

/-- Five tests passed and two failed. -/
def fiveOfSeven : List Change :=
  List.replicate 5 (.addPassed "ok" "") ++
    [.addFailed "bad 1" "boom" "tests/a.cpp:10", .addFailed "bad 2" "boom" ""]

theorem fiveOfSeven_scored :
    let card := ofChanges fiveOfSeven
    let last : TestResult := { name := "bad 2", outcome := .failed, details := "boom" }
    last ∈ card.results ∧ last.outcome = .failed ∧ card.passed = false ∧
      card.results.length ≤ 2 ^ 53 ∧ card.exactScore = 5 / 7 ∧
      card.exactScore ≤ (card.addPassed "late" "").exactScore ∧
      Binary64.Nearest (5 / 7) card.score.magnitude ∧ card.score ≠ .one := by
  intro card last
  obtain ⟨-, -, hfailed, -, -, hraised, -, hrounded⟩ := score_of_changes fiveOfSeven
  have hlast : last ∈ card.results := by decide
  have hpassed : card.passed = false := hfailed last hlast rfl
  have hlength : card.results.length = 7 := rfl
  have hcount : card.passedCount = 5 := rfl
  have hexact : card.exactScore = 5 / 7 := by
    rw [exactScore_of_failed hpassed, hcount, hlength]
    norm_num
  have hsmall : card.results.length ≤ 2 ^ 53 := by
    rw [hlength]
    decide
  obtain ⟨-, hnearest, hfull⟩ := hrounded hsmall
  rw [hexact] at hnearest
  refine ⟨hlast, rfl, hpassed, hsmall, hexact, hraised hpassed "late" "", hnearest, ?_⟩
  rw [ne_eq, hfull, hexact]
  norm_num

end ReportCard

end Proctor
