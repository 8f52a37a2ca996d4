import Proctor.Commit
import Proctor.Proofs.ProblemTypeText

/-!
The fields of a commit as pairs. The keys of files, of events and of a report card start with letters of
their own, so a key has values from one of these blocks only.
-/

namespace Proctor.Commit

open Signature

/-- What one event of the transcript adds. -/
def eventPairs (entry : Entry × Nat) : List (String × Bytes) :=
  let stem := s!"transcript-{Decimal.text entry.2}"
  textPairs [(stem, entry.1.event.describe)] ++
    match entry.1.event with
    | .files files => filePairs (stem ++ "-file-") files
    | _ => []

theorem addEntry_eq (f : Fields) (entry : Entry × Nat) :
    addEntry f entry = f.addPairs (eventPairs entry) := by
  obtain ⟨⟨time, event⟩, i⟩ := entry
  cases event <;>
    simp only [addEntry, eventPairs, Fields.addText_eq, Fields.addFiles_eq, Fields.addPairs_append,
      List.append_nil]

/-- What one test result adds. -/
def resultPairs (result : TestResult × Nat) : List (String × Bytes) :=
  let stem := s!"reportcard-{Decimal.text result.2}-"
  let r := result.1
  textPairs <|
    [(stem ++ "name", r.name), (stem ++ "outcome", r.outcome.name)] ++
    (if r.details.isEmpty then [] else [(stem ++ "details", r.details)]) ++
    (if r.context.isEmpty then [] else [(stem ++ "context", r.context)])

def cardPairs (card : ReportCard) : List (String × Bytes) :=
  textPairs [("reportcard-passed", Action.boolText card.passed), ("reportcard-note", card.note)] ++
    card.results.zipIdx.flatMap resultPairs

theorem addCard_eq (f : Fields) (card : ReportCard) :
    addCard f card = f.addPairs (cardPairs card) := by
  have hresult : addResult = fun f result => f.addPairs (resultPairs result) := by
    funext f result
    rw [addResult, Fields.addTexts_eq, resultPairs]
  rw [addCard, hresult, Fields.foldl_addPairs, Fields.addTexts_eq, cardPairs, Fields.addPairs_append]

def signedPairs (c : Commit) (context : CommitContext) : List (String × Bytes) :=
  textPairs [("id", Decimal.signedText c.id), ("assignment_id", Decimal.signedText c.assignmentId),
    ("problem_id", Decimal.signedText c.problemId), ("step", Decimal.signedText c.step),
    ("action", c.action), ("note", c.note)] ++
  filePairs "file-" c.files ++
  c.transcript.zipIdx.flatMap eventPairs ++
  c.reportCard.elim [] cardPairs ++
  textPairs [("score", c.score.plainText), ("created_at", c.createdAt.canonical),
    ("updated_at", c.updatedAt.canonical),
    ("problem_type_signature", context.problemTypeSignature),
    ("problem_signature", context.problemSignature), ("daycare_host", context.hostname),
    ("user_id", Decimal.signedText context.userId)]

/-- The fields of a commit are its signed pairs, added one by one. -/
theorem signedFields_eq (c : Commit) (context : CommitContext) :
    c.signedFields context = Fields.empty.addPairs (c.signedPairs context) := by
  have hentry : addEntry = fun f entry => f.addPairs (eventPairs entry) := by
    funext f entry
    exact addEntry_eq f entry
  have htail (f : Fields) (pairs : List (String × String)) :
      (((f.addText "score" c.score.plainText).addTime "created_at" c.createdAt).addTime "updated_at"
        c.updatedAt).addTexts pairs = f.addPairs (textPairs ([("score", c.score.plainText),
          ("created_at", c.createdAt.canonical), ("updated_at", c.updatedAt.canonical)] ++ pairs)) := by
    rw [Fields.addTexts_eq, Fields.addTime_eq, Fields.addTime_eq, Fields.addText_eq,
      ← Fields.addPairs_append, ← Fields.addPairs_append, ← Fields.addPairs_append]
    simp [textPairs]
  simp only [signedFields, signedPairs]
  rw [htail, hentry, Fields.foldl_addPairs, Fields.addFiles_eq, Fields.addTexts_eq,
    Fields.addPairs_append, Fields.addPairs_append, Fields.addPairs_append, Fields.addPairs_append]
  congr 1
  cases c.reportCard with
  | none => rfl
  | some card => exact addCard_eq _ card

theorem valuesOf_signedFields (c : Commit) (context : CommitContext) (key : String) :
    (c.signedFields context).valuesOf key = valuesAt key (c.signedPairs context) := by
  rw [signedFields_eq, Fields.valuesOf_addPairs_empty]

/-- The keys of events start with a `t`. -/
theorem eventPairs_key {entry : Entry × Nat} {p : String × Bytes} (h : p ∈ eventPairs entry) :
    ∃ rest, p.1.toList = 't' :: rest := by
  obtain ⟨⟨time, event⟩, i⟩ := entry
  have hstem (rest : String) :
      ∃ cs, (s!"transcript-{Decimal.text i}" ++ rest).toList = 't' :: cs := by
    simp [toString]
  rw [eventPairs, List.mem_append] at h
  rcases h with h | h
  · obtain rfl : p = (s!"transcript-{Decimal.text i}", Utf8.encode event.describe) := by
      simpa [textPairs] using h
    simpa using hstem ""
  · cases event with
    | files files =>
      obtain ⟨q, _, rfl⟩ := List.mem_map.1 h
      simpa [String.append_assoc] using hstem ("-file-" ++ q.1)
    | _ => cases h

/-- The keys of a report card start with an `r`. -/
theorem cardPairs_key {card : ReportCard} {p : String × Bytes} (h : p ∈ cardPairs card) :
    ∃ rest, p.1.toList = 'r' :: rest := by
  rw [cardPairs, List.mem_append] at h
  rcases h with h | h
  · simp only [textPairs, List.map_cons, List.map_nil, List.mem_cons, List.not_mem_nil,
      or_false] at h
    rcases h with rfl | rfl <;> simp
  · obtain ⟨result, _, h⟩ := List.mem_flatMap.1 h
    obtain ⟨q, hq, rfl⟩ := List.mem_map.1 h
    have hstem (rest : String) :
        ∃ cs, (s!"reportcard-{Decimal.text result.2}-" ++ rest).toList = 'r' :: cs := by
      simp [toString]
    simp only [List.mem_append, List.mem_cons, List.not_mem_nil, or_false, List.mem_ite_nil_left]
      at hq
    rcases hq with ((rfl | rfl) | ⟨_, rfl⟩) | ⟨_, rfl⟩ <;> exact hstem _

theorem valuesAt_files (c : Commit) (key : String) (h : ∀ rest, key.toList ≠ 'f' :: rest) :
    valuesAt key (filePairs "file-" c.files) = [] := by
  apply valuesAt_filePairs_of_ne
  rintro path rfl
  exact h _ (String.toList_append ..)

theorem valuesAt_events (c : Commit) (key : String) (h : ∀ rest, key.toList ≠ 't' :: rest) :
    valuesAt key (c.transcript.zipIdx.flatMap eventPairs) = [] := by
  apply valuesAt_eq_nil
  rintro p hp rfl
  obtain ⟨entry, _, hp⟩ := List.mem_flatMap.1 hp
  obtain ⟨rest, hrest⟩ := eventPairs_key hp
  exact h rest hrest

theorem valuesAt_card (c : Commit) (key : String) (h : ∀ rest, key.toList ≠ 'r' :: rest) :
    valuesAt key (c.reportCard.elim [] cardPairs) = [] := by
  cases c.reportCard with
  | none => rfl
  | some card =>
    apply valuesAt_eq_nil
    rintro p hp rfl
    obtain ⟨rest, hrest⟩ := cardPairs_key hp
    exact h rest hrest

end Proctor.Commit
