import Mathlib.Data.List.Forall2
import Proctor.Proofs.CommitText
import Proctor.Proofs.EventLine

/-!
What a commit signature binds. The fixed fields of a commit have keys of their own; events and test
results are numbered, and a key tells the number, so the text tells every event by its line and its files
and every result by its four parts. Main statement: commits have one text exactly when their contexts and
all of their parts agree, up to the times of events and the words of commands.
-/

namespace Proctor

open Signature

namespace Commit

/-- The fields that every commit has once. -/
def signedTexts (c : Commit) (context : CommitContext) : List (String × String) :=
  [("id", Decimal.signedText c.id), ("assignment_id", Decimal.signedText c.assignmentId),
    ("problem_id", Decimal.signedText c.problemId), ("step", Decimal.signedText c.step),
    ("action", c.action), ("note", c.note), ("score", c.score.plainText),
    ("created_at", c.createdAt.canonical), ("updated_at", c.updatedAt.canonical),
    ("problem_type_signature", context.problemTypeSignature),
    ("problem_signature", context.problemSignature), ("daycare_host", context.hostname),
    ("user_id", Decimal.signedText context.userId)]

def textNames : List String :=
  ["id", "assignment_id", "problem_id", "step", "action", "note", "score", "created_at", "updated_at",
    "problem_type_signature", "problem_signature", "daycare_host", "user_id"]

theorem map_fst_signedTexts (c : Commit) (context : CommitContext) :
    (c.signedTexts context).map Prod.fst = textNames := rfl

/-- The values of a key are those from the fixed fields, the files, the events and the report card. -/
theorem valuesAt_signedPairs (c : Commit) (context : CommitContext) (key : String) :
    valuesAt key (c.signedPairs context) =
      valuesAt key (textPairs ((c.signedTexts context).take 6)) ++ valuesAt key (filePairs "file-" c.files) ++
        valuesAt key (c.transcript.zipIdx.flatMap eventPairs) ++
        valuesAt key (c.reportCard.elim [] cardPairs) ++
        valuesAt key (textPairs ((c.signedTexts context).drop 6)) := by
  simp only [signedPairs, valuesAt_append]
  rfl

/-- A fixed field does not start as files, events and report cards do. -/
theorem initial_of_mem_textNames {key : String} (h : key ∈ textNames) {c : Char} {rest : List Char}
    (hkey : key.toList = c :: rest) : c ∉ ['f', 't', 'r'] := by
  have all : ∀ name ∈ textNames, name.toList.head?.all fun c => c ∉ ['f', 't', 'r'] := by decide
  have hinitial := all key h
  rw [hkey] at hinitial
  simpa using hinitial

theorem valuesAt_signedTexts_of_initial (c : Commit) (context : CommitContext) {key : String}
    {initial : Char} {rest : List Char} (hkey : key.toList = initial :: rest)
    (hinitial : initial ∈ ['f', 't', 'r']) :
    valuesAt key (textPairs ((c.signedTexts context).take 6)) = [] ∧
      valuesAt key (textPairs ((c.signedTexts context).drop 6)) = [] := by
  have absent {l : List (String × String)} (hl : l ⊆ c.signedTexts context) :
      valuesAt key (textPairs l) = [] := by
    apply valuesAt_textPairs_of_not_mem
    rintro p hp rfl
    have hname : p.1 ∈ textNames :=
      map_fst_signedTexts c context ▸ List.mem_map_of_mem (hl hp)
    exact initial_of_mem_textNames hname hkey hinitial
  exact ⟨absent (List.take_subset ..), absent (List.drop_subset ..)⟩

theorem valuesAt_text (c : Commit) (context : CommitContext) {key : String} (h : key ∈ textNames) :
    valuesAt key (c.signedPairs context) = valuesAt key (textPairs (c.signedTexts context)) := by
  have hinitial {c : Char} {rest : List Char} (hc : c ∈ ['f', 't', 'r']) : key.toList ≠ c :: rest :=
    fun hkey => initial_of_mem_textNames h hkey hc
  have hfiles := valuesAt_files c key fun rest => hinitial (by simp)
  have hevents := valuesAt_events c key fun rest => hinitial (by simp)
  have hcard := valuesAt_card c key fun rest => hinitial (by simp)
  rw [valuesAt_signedPairs, hfiles, hevents, hcard, List.append_nil, List.append_nil, List.append_nil,
    ← valuesAt_append]
  rfl

/-- The fixed fields are read back, each under its own key. -/
theorem signedTexts_injective {c c' : Commit} {context context' : CommitContext}
    (h : ∀ key, valuesAt key (c.signedPairs context) = valuesAt key (c'.signedPairs context')) :
    c.signedTexts context = c'.signedTexts context' := by
  apply texts_ext textNames rfl rfl (by decide)
  intro key hkey
  rw [← valuesAt_text c context hkey, ← valuesAt_text c' context' hkey, h]

theorem valuesAt_file (c : Commit) (context : CommitContext) (path : String) :
    valuesAt ("file-" ++ path) (c.signedPairs context) = (c.files.find? path).toList := by
  have hkey : ("file-" ++ path).toList = 'f' :: ("ile-".toList ++ path.toList) :=
    String.toList_append ..
  obtain ⟨hhead, htail⟩ := c.valuesAt_signedTexts_of_initial context hkey (by simp)
  have hevents := valuesAt_events c ("file-" ++ path) fun _ h => by simp [hkey] at h
  have hcard := valuesAt_card c ("file-" ++ path) fun _ h => by simp [hkey] at h
  rw [valuesAt_signedPairs, hhead, htail, hevents, hcard, valuesAt_filePairs]
  simp

/-! Events of the transcript -/

def eventStem (n : Nat) : String :=
  s!"transcript-{Decimal.text n}"

/-- What an event adds, without the start of its keys. -/
def eventParts (e : Event) : List (String × Bytes) :=
  textPairs [("", e.describe)] ++ filePairs "-file-" e.contents

theorem eventPairs_eq (entry : Entry × Nat) :
    eventPairs entry = prefixed (eventStem entry.2) (eventParts entry.1.event) := by
  obtain ⟨⟨time, event⟩, n⟩ := entry
  cases event <;>
    simp [eventPairs, eventParts, prefixed, eventStem, textPairs, filePairs, entryPairs, Event.contents,
      KeyMap.empty, String.append_assoc]

theorem toList_eventStem_append (n : Nat) (rest : String) :
    (eventStem n ++ rest).toList = "transcript-".toList ++ (Decimal.chars n ++ rest.toList) := by
  simp [eventStem, Decimal.text, toString]

theorem head?_eventParts {e : Event} {p : String × Bytes} (h : p ∈ eventParts e) :
    ∀ c ∈ p.1.toList.head?, c = '-' := by
  rcases List.mem_append.1 h with h | h
  · obtain rfl : p = ("", Utf8.encode e.describe) := by simpa [textPairs] using h
    simp
  · obtain ⟨q, _, rfl⟩ := List.mem_map.1 h
    simp

/-- Under the key of a numbered event are the parts of that event alone. -/
theorem valuesAt_event (c : Commit) (context : CommitContext) (n : Nat) {rest : String}
    (hrest : ∀ c ∈ rest.toList.head?, c = '-') :
    valuesAt (eventStem n ++ rest) (c.signedPairs context) =
      (c.transcript[n]?).elim [] fun entry => valuesAt rest (eventParts entry.event) := by
  have hkey : (eventStem n ++ rest).toList = 't' :: ("ranscript-".toList ++ _) :=
    toList_eventStem_append n rest
  obtain ⟨hhead, htail⟩ := c.valuesAt_signedTexts_of_initial context hkey (by simp)
  have hfiles := valuesAt_files c (eventStem n ++ rest) fun _ h => by simp [hkey] at h
  have hcard := valuesAt_card c (eventStem n ++ rest) fun _ h => by simp [hkey] at h
  have hblocks := valuesAt_numbered eventStem (fun e : Entry => eventParts e.event) n rest ?_
    c.transcript
  · rw [valuesAt_signedPairs, hhead, htail, hfiles, hcard, funext eventPairs_eq, hblocks]
    simp
  · intro i e p hp he
    have hlist := congrArg String.toList he
    rw [toList_eventStem_append, toList_eventStem_append] at hlist
    exact Decimal.eq_of_chars_append (head?_eventParts hp) hrest (List.append_cancel_left hlist)

theorem valuesAt_eventParts_line (e : Event) : valuesAt "" (eventParts e) = [Utf8.encode e.describe] := by
  have hfiles : valuesAt "" (filePairs "-file-" e.contents) = [] :=
    valuesAt_filePairs_of_ne fun path h => by simpa using congrArg String.toList h
  rw [eventParts, valuesAt_append, hfiles]
  rfl

theorem valuesAt_eventParts_file (e : Event) (path : String) :
    valuesAt ("-file-" ++ path) (eventParts e) = (e.contents.find? path).toList := by
  have hline : valuesAt ("-file-" ++ path) (textPairs [("", e.describe)]) = [] := by
    apply valuesAt_textPairs_of_not_mem
    intro p hp he
    obtain rfl := List.mem_singleton.1 hp
    simpa using congrArg String.toList he
  rw [eventParts, valuesAt_append, hline, valuesAt_filePairs, List.nil_append]

/-- An event is told by its line and the files that it carries. -/
theorem event_of_values {e e' : Event}
    (h : ∀ rest : String, (∀ c ∈ rest.toList.head?, c = '-') →
      valuesAt rest (eventParts e) = valuesAt rest (eventParts e')) : e.SameSigned e' := by
  apply Event.sameSigned_of_describe_eq
  · have hline := h "" (by simp)
    rw [valuesAt_eventParts_line, valuesAt_eventParts_line] at hline
    exact Utf8.encode_injective (List.singleton_inj.1 hline)
  · apply KeyMap.ext_find?
    intro path
    have hfile := h ("-file-" ++ path) (by simp)
    rw [valuesAt_eventParts_file, valuesAt_eventParts_file] at hfile
    exact option_toList_injective hfile

theorem eventParts_eq_of_sameSigned {e e' : Event} (h : e.SameSigned e') :
    eventParts e = eventParts e' := by
  rw [eventParts, eventParts, h.describe_eq, h.contents_eq]

/-- The events are read back in order, up to how commands are split into words. -/
theorem transcript_of_values {c c' : Commit} {context context' : CommitContext}
    (h : ∀ key, valuesAt key (c.signedPairs context) = valuesAt key (c'.signedPairs context')) :
    List.Forall₂ (fun e e' : Entry => e.event.SameSigned e'.event) c.transcript c'.transcript := by
  apply forall₂_of_numbered (fun rest (entry : Entry) => valuesAt rest (eventParts entry.event))
    (fun rest => ∀ c ∈ rest.toList.head?, c = '-') ""
  · simp
  · intro entry
    simp [valuesAt_eventParts_line]
  · exact event_of_values
  · intro n rest hrest
    rw [← valuesAt_event c context n hrest, ← valuesAt_event c' context' n hrest, h]

theorem eventPairs_of_sameSigned {l l' : List Entry}
    (h : List.Forall₂ (fun e e' : Entry => e.event.SameSigned e'.event) l l') (k : Nat) :
    (l.zipIdx k).flatMap eventPairs = (l'.zipIdx k).flatMap eventPairs := by
  induction h generalizing k with
  | nil => rfl
  | cons hab _ ih =>
    rw [List.zipIdx_cons, List.zipIdx_cons, List.flatMap_cons, List.flatMap_cons, ih, eventPairs_eq,
      eventPairs_eq, eventParts_eq_of_sameSigned hab]

/-! Results of the report card -/

def resultStem (n : Nat) : String :=
  s!"reportcard-{Decimal.text n}-"

/-- A field that an empty text does not have. -/
def optionalText (name text : String) : List (String × String) :=
  if text.isEmpty then [] else [(name, text)]

/-- What a test result adds, without the start of its keys. -/
def resultParts (r : TestResult) : List (String × Bytes) :=
  textPairs ([("name", r.name), ("outcome", r.outcome.name)] ++ optionalText "details" r.details ++
    optionalText "context" r.context)

theorem resultPairs_eq (result : TestResult × Nat) :
    resultPairs result = prefixed (resultStem result.2) (resultParts result.1) := by
  obtain ⟨r, n⟩ := result
  simp only [resultPairs, resultParts, resultStem, optionalText, prefixed, textPairs]
  split <;> split <;> simp

theorem toList_resultStem_append (n : Nat) (rest : String) :
    (resultStem n ++ rest).toList =
      "reportcard-".toList ++ (Decimal.chars n ++ '-' :: rest.toList) := by
  simp [resultStem, Decimal.text, toString]

/-- The fields of a whole card have no number. -/
theorem resultStem_append_ne (n : Nat) (rest field : String) (h : '-' ∉ field.toList) :
    resultStem n ++ rest ≠ "reportcard-" ++ field := by
  intro he
  have hlist := congrArg String.toList he
  rw [toList_resultStem_append, String.toList_append] at hlist
  exact h (List.append_cancel_left hlist ▸ List.mem_append_right _ (.head _))

theorem valuesAt_results_of_field (results : List TestResult) {field : String}
    (h : '-' ∉ field.toList) :
    valuesAt ("reportcard-" ++ field) (results.zipIdx.flatMap resultPairs) = [] := by
  rw [valuesAt_flatMap, List.flatMap_eq_nil_iff]
  intro result _
  rw [resultPairs_eq]
  exact valuesAt_prefixed_of_ne fun p _ => resultStem_append_ne result.2 p.1 field h

theorem valuesAt_cardPairs_passed (card : ReportCard) :
    valuesAt ("reportcard-" ++ "passed") (cardPairs card) =
      [Utf8.encode (Action.boolText card.passed)] := by
  rw [cardPairs, valuesAt_append, valuesAt_results_of_field card.results (by simp), List.append_nil]
  rfl

theorem valuesAt_cardPairs_note (card : ReportCard) :
    valuesAt ("reportcard-" ++ "note") (cardPairs card) = [Utf8.encode card.note] := by
  rw [cardPairs, valuesAt_append, valuesAt_results_of_field card.results (by simp), List.append_nil]
  rfl

theorem valuesAt_cardPairs_result (card : ReportCard) (n : Nat) (rest : String) :
    valuesAt (resultStem n ++ rest) (cardPairs card) =
      (card.results[n]?).elim [] fun r => valuesAt rest (resultParts r) := by
  have hfields : valuesAt (resultStem n ++ rest) (textPairs
      [("reportcard-passed", Action.boolText card.passed), ("reportcard-note", card.note)]) = [] := by
    apply valuesAt_textPairs_of_not_mem
    intro p hp he
    rcases List.mem_pair.1 hp with rfl | rfl
    · exact resultStem_append_ne n rest "passed" (by simp) he.symm
    · exact resultStem_append_ne n rest "note" (by simp) he.symm
  have hblocks := valuesAt_numbered resultStem resultParts n rest ?_ card.results
  · rw [cardPairs, valuesAt_append, hfields, List.nil_append, funext resultPairs_eq, hblocks]
  · intro i r p _ he
    have hlist := congrArg String.toList he
    rw [toList_resultStem_append, toList_resultStem_append] at hlist
    obtain ⟨hnumber, _⟩ := append_separator_inj (Decimal.minus_not_mem_chars _)
      (Decimal.minus_not_mem_chars _) (List.append_cancel_left hlist)
    exact Decimal.chars_injective hnumber

/-- An empty text has no value, so that it is told from every other. -/
theorem optionalText_injective {name text text' : String}
    (h : valuesAt name (textPairs (optionalText name text)) =
      valuesAt name (textPairs (optionalText name text'))) : text = text' := by
  have values (text : String) : valuesAt name (textPairs (optionalText name text)) =
      if text = "" then [] else [Utf8.encode text] := by
    unfold optionalText
    by_cases ht : text = "" <;> simp [ht, textPairs, valuesAt_cons]
  rw [values, values] at h
  by_cases ht : text = "" <;> by_cases ht' : text' = ""
  · rw [ht, ht']
  · simp [ht, ht'] at h
  · simp [ht, ht'] at h
  · rw [if_neg ht, if_neg ht'] at h
    exact Utf8.encode_injective (List.singleton_inj.1 h)

theorem valuesAt_optionalText_of_ne {name key : String} (text : String) (h : name ≠ key) :
    valuesAt key (textPairs (optionalText name text)) = [] := by
  apply valuesAt_textPairs_of_not_mem
  intro p hp
  unfold optionalText at hp
  split at hp
  · cases hp
  · rw [List.mem_singleton.1 hp]
    exact h

theorem valuesAt_resultParts (r : TestResult) (key : String) :
    valuesAt key (resultParts r) =
      valuesAt key (textPairs [("name", r.name), ("outcome", r.outcome.name)]) ++
        valuesAt key (textPairs (optionalText "details" r.details)) ++
        valuesAt key (textPairs (optionalText "context" r.context)) := by
  rw [← valuesAt_append, ← valuesAt_append, resultParts, textPairs, List.map_append, List.map_append]
  rfl

theorem outcome_name_injective {o o' : Outcome} (h : o.name = o'.name) : o = o' := by
  cases o <;> cases o' <;> simp_all [Outcome.name]

theorem resultParts_injective {r r' : TestResult}
    (h : ∀ rest, valuesAt rest (resultParts r) = valuesAt rest (resultParts r')) : r = r' := by
  have hname : r.name = r'.name := by
    have hv := h "name"
    simp only [valuesAt_resultParts, valuesAt_optionalText_of_ne _ (by decide : "details" ≠ "name"),
      valuesAt_optionalText_of_ne _ (by decide : "context" ≠ "name")] at hv
    exact Utf8.encode_injective (by simpa [textPairs, valuesAt] using hv)
  have houtcome : r.outcome = r'.outcome := by
    have hv := h "outcome"
    simp only [valuesAt_resultParts, valuesAt_optionalText_of_ne _ (by decide : "details" ≠ "outcome"),
      valuesAt_optionalText_of_ne _ (by decide : "context" ≠ "outcome")] at hv
    exact outcome_name_injective (Utf8.encode_injective (by simpa [textPairs, valuesAt] using hv))
  have hdetails : r.details = r'.details := by
    have hv := h "details"
    simp only [valuesAt_resultParts, valuesAt_optionalText_of_ne _ (by decide : "context" ≠ "details")]
      at hv
    exact optionalText_injective (by simpa [textPairs, valuesAt] using hv)
  have hcontext : r.context = r'.context := by
    have hv := h "context"
    simp only [valuesAt_resultParts, valuesAt_optionalText_of_ne _ (by decide : "details" ≠ "context")]
      at hv
    exact optionalText_injective (by simpa [textPairs, valuesAt] using hv)
  cases r
  cases r'
  simp only [TestResult.mk.injEq]
  exact ⟨hname, houtcome, hdetails, hcontext⟩

/-- A report card is told by its verdict, its note and its numbered results. -/
theorem card_of_values {card card' : ReportCard}
    (h : ∀ rest, valuesAt ("reportcard-" ++ rest) (cardPairs card) =
      valuesAt ("reportcard-" ++ rest) (cardPairs card')) : card = card' := by
  have hpassed : card.passed = card'.passed := by
    have hv := h "passed"
    rw [valuesAt_cardPairs_passed, valuesAt_cardPairs_passed] at hv
    exact Action.boolText_injective (Utf8.encode_injective (List.singleton_inj.1 hv))
  have hnote : card.note = card'.note := by
    have hv := h "note"
    rw [valuesAt_cardPairs_note, valuesAt_cardPairs_note] at hv
    exact Utf8.encode_injective (List.singleton_inj.1 hv)
  have hresults : card.results = card'.results := by
    have hstem (n : Nat) (rest : String) :
        resultStem n ++ rest = "reportcard-" ++ (Decimal.text n ++ "-" ++ rest) := by
      simp [resultStem, toString, String.append_assoc]
    have hall : List.Forall₂ Eq card.results card'.results := by
      apply forall₂_of_numbered (fun rest r => valuesAt rest (resultParts r)) (fun _ => True) "name"
        trivial
      · intro r
        simp [valuesAt_resultParts, textPairs, valuesAt_cons]
      · intro r r' hvalues
        exact resultParts_injective fun rest => hvalues rest trivial
      · intro n rest _
        rw [← valuesAt_cardPairs_result, ← valuesAt_cardPairs_result, hstem, h]
    exact List.forall₂_eq_eq_eq ▸ hall
  cases card
  cases card'
  simp only [ReportCard.mk.injEq]
  exact ⟨hpassed, hnote, hresults⟩

theorem valuesAt_cardField (c : Commit) (context : CommitContext) (field : String) :
    valuesAt ("reportcard-" ++ field) (c.signedPairs context) =
      valuesAt ("reportcard-" ++ field) (c.reportCard.elim [] cardPairs) := by
  have hkey : ("reportcard-" ++ field).toList = 'r' :: ("eportcard-".toList ++ field.toList) :=
    String.toList_append ..
  obtain ⟨hhead, htail⟩ := c.valuesAt_signedTexts_of_initial context hkey (by simp)
  have hfiles := valuesAt_files c ("reportcard-" ++ field) fun _ h => by simp [hkey] at h
  have hevents := valuesAt_events c ("reportcard-" ++ field) fun _ h => by simp [hkey] at h
  rw [valuesAt_signedPairs, hhead, htail, hfiles, hevents]
  simp

theorem reportCard_of_values {c c' : Commit} {context context' : CommitContext}
    (h : ∀ key, valuesAt key (c.signedPairs context) = valuesAt key (c'.signedPairs context')) :
    c.reportCard = c'.reportCard := by
  have hvalues (field : String) :=
    (c.valuesAt_cardField context field).symm.trans ((h _).trans (c'.valuesAt_cardField context' field))
  have hpassed := hvalues "passed"
  generalize c.reportCard = o at hvalues hpassed
  generalize c'.reportCard = o' at hvalues hpassed
  cases o with
  | none =>
    cases o' with
    | none => rfl
    | some card' =>
      exact absurd (hpassed.trans (valuesAt_cardPairs_passed card')).symm (List.cons_ne_nil _ _)
  | some card =>
    cases o' with
    | none => exact absurd ((valuesAt_cardPairs_passed card).symm.trans hpassed) (List.cons_ne_nil _ _)
    | some card' => rw [card_of_values hvalues]

theorem files_of_values {c c' : Commit} {context context' : CommitContext}
    (h : ∀ key, valuesAt key (c.signedPairs context) = valuesAt key (c'.signedPairs context')) :
    c.files = c'.files := by
  apply KeyMap.ext_find?
  intro path
  have hfile := h ("file-" ++ path)
  rw [valuesAt_file, valuesAt_file] at hfile
  exact option_toList_injective hfile

/-- The parts of two commits that are signed agree: times to the second, a score as it prints, and the
events of the transcript one by one without their times. -/
structure SameSigned (c c' : Commit) : Prop where
  id : c.id = c'.id
  assignmentId : c.assignmentId = c'.assignmentId
  problemId : c.problemId = c'.problemId
  step : c.step = c'.step
  action : c.action = c'.action
  note : c.note = c'.note
  files : c.files = c'.files
  transcript :
    List.Forall₂ (fun e e' : Entry => e.event.SameSigned e'.event) c.transcript c'.transcript
  reportCard : c.reportCard = c'.reportCard
  score : c.score.plainText = c'.score.plainText
  createdAt : c.createdAt.canonical = c'.createdAt.canonical
  updatedAt : c.updatedAt.canonical = c'.updatedAt.canonical

theorem sameSigned_of_encode_eq {c c' : Commit} {context context' : CommitContext}
    (h : (c.signedFields context).encode = (c'.signedFields context').encode) :
    context = context' ∧ c.SameSigned c' := by
  have hvalues (key : String) :
      valuesAt key (c.signedPairs context) = valuesAt key (c'.signedPairs context') := by
    rw [← valuesOf_signedFields, ← valuesOf_signedFields]
    exact Fields.encode_eq_iff.1 h key
  have htexts := signedTexts_injective hvalues
  simp only [signedTexts, List.cons.injEq, Prod.mk.injEq, true_and, and_true] at htexts
  obtain ⟨hid, hassignment, hproblem, hstep, haction, hnote, hscore, hcreated, hupdated, htype,
    hproblemSignature, hhost, huser⟩ := htexts
  constructor
  · cases context
    cases context'
    simp only [CommitContext.mk.injEq]
    exact ⟨htype, hproblemSignature, hhost, Decimal.signedText_injective huser⟩
  · exact {
      id := Decimal.signedText_injective hid
      assignmentId := Decimal.signedText_injective hassignment
      problemId := Decimal.signedText_injective hproblem
      step := Decimal.signedText_injective hstep
      action := haction, note := hnote, files := files_of_values hvalues
      transcript := transcript_of_values hvalues, reportCard := reportCard_of_values hvalues
      score := hscore, createdAt := hcreated, updatedAt := hupdated }

theorem SameSigned.signedFields_eq {c c' : Commit} (h : c.SameSigned c') (context : CommitContext) :
    c.signedFields context = c'.signedFields context := by
  rw [Commit.signedFields_eq, Commit.signedFields_eq, signedPairs, signedPairs]
  rw [h.id, h.assignmentId, h.problemId, h.step, h.action, h.note, h.files,
    eventPairs_of_sameSigned h.transcript, h.reportCard, h.score, h.createdAt, h.updatedAt]

/-- Two commits in their contexts have one text exactly when the contexts are equal and the commits agree in
all that is signed. -/
theorem signed_text_eq_iff_agree {c c' : Commit} {context context' : CommitContext} :
    (c.signedFields context).encode = (c'.signedFields context').encode ↔
      context = context' ∧ c.SameSigned c' := by
  constructor
  · exact sameSigned_of_encode_eq
  · rintro ⟨rfl, h⟩
    rw [h.signedFields_eq]

end Commit
end Proctor
