import Proctor.Problem
import Proctor.Proofs.ProblemTypeText

/-!
What the text of a problem and its steps says. The values of steps that bear the same number end up under
the same keys, so of such steps the text tells each column of values alone: the types, the notes, and for
every path the contents of those steps that have the path. It does not tell which step has which.
-/

namespace Proctor

open Signature

namespace Step

def whitelistPairs (whitelist : KeyMap Bool) : List (String × Bytes) :=
  entryPairs "whitelist-" (fun allowed => Utf8.encode (Action.boolText allowed)) whitelist

def textParts (s : Step) : List (String × Bytes) :=
  textPairs [("problemType", s.problemType), ("note", s.note), ("weight", s.weight.plainText)]

/-- What a step adds, without the start of its keys. -/
def parts (s : Step) : List (String × Bytes) :=
  s.textParts ++ filePairs "file-" s.files ++ whitelistPairs s.whitelist ++
    filePairs "solution-" s.solution

/-- The start of the keys of steps with a number. -/
def stem (number : Int) : String :=
  s!"step-{Decimal.signedText number}-"

def signedPairs (s : Step) : List (String × Bytes) :=
  s.parts.map fun p => (stem s.step ++ p.1, p.2)

/-- The fields that a step adds are its parts under keys that start with its number. -/
theorem addFields_eq (f : Fields) (s : Step) : addFields f s = f.addPairs s.signedPairs := by
  simp only [addFields, signedPairs, parts, textParts, whitelistPairs, Fields.addTexts_eq,
    Fields.addFiles_eq, ← Fields.addPairs_append]
  simp [textPairs, filePairs, entryPairs, stem, String.append_assoc, Function.comp_def]

theorem toList_stem_append (number : Int) (rest : String) :
    (stem number ++ rest).toList =
      "step-".toList ++ ((Decimal.signedText number).toList ++ '-' :: rest.toList) := by
  simp [stem, toString]

/-- A key tells the number of its step and the part that it is of. -/
theorem stem_append_inj {m n : Int} {s t : String} (h : stem m ++ s = stem n ++ t) :
    m = n ∧ s = t := by
  have hlist := congrArg String.toList h
  rw [toList_stem_append, toList_stem_append] at hlist
  obtain ⟨hnumber, hrest⟩ := Decimal.signedText_append_inj (List.append_cancel_left hlist)
  exact ⟨hnumber, String.toList_injective hrest⟩

theorem valuesAt_signedPairs (s : Step) (number : Int) (rest : String) :
    valuesAt (stem number ++ rest) s.signedPairs =
      if s.step = number then valuesAt rest s.parts else [] := by
  by_cases h : s.step = number
  · subst h
    simp [signedPairs, valuesAt, List.filterMap_map]
  · rw [if_neg h]
    apply valuesAt_eq_nil
    intro p hp he
    obtain ⟨q, _, rfl⟩ := List.mem_map.1 hp
    exact h (stem_append_inj he).1

/-- The steps that bear a number. -/
def numbered (number : Int) (steps : List Step) : List Step :=
  steps.filter (·.step = number)

theorem count_number (steps : List Step) (number : Int) :
    (steps.map (·.step)).count number = (numbered number steps).length := by
  rw [List.count, List.countP_map, List.countP_eq_length_filter, numbered]
  rfl

/-- Under the key of a part are those of all steps with the number, in their order. -/
theorem valuesAt_steps (steps : List Step) (number : Int) (rest : String) :
    valuesAt (stem number ++ rest) (steps.flatMap signedPairs) =
      (numbered number steps).flatMap fun s => valuesAt rest s.parts := by
  rw [valuesAt_flatMap]
  simp only [valuesAt_signedPairs]
  induction steps with
  | nil => rfl
  | cons s steps ih =>
    rw [List.flatMap_cons, ih]
    by_cases h : s.step = number <;> simp [numbered, h]

/-- No step adds to a key that starts otherwise. -/
theorem valuesAt_steps_of_ne (steps : List Step) (key : String)
    (h : ∀ number rest, stem number ++ rest ≠ key) : valuesAt key (steps.flatMap signedPairs) = [] := by
  apply valuesAt_eq_nil
  intro p hp
  obtain ⟨s, _, hp⟩ := List.mem_flatMap.1 hp
  obtain ⟨q, _, rfl⟩ := List.mem_map.1 hp
  exact h s.step q.1

theorem valuesAt_textParts_of_ne {key : String} (s : Step)
    (h : key ∉ ["problemType", "note", "weight"]) : valuesAt key s.textParts = [] := by
  apply valuesAt_textPairs_of_not_mem
  rintro p hp rfl
  simp only [List.mem_cons, List.not_mem_nil, or_false] at hp h
  rcases hp with rfl | rfl | rfl <;> simp at h

theorem valuesAt_parts_text {key : String} (s : Step)
    (h : key ∈ ["problemType", "note", "weight"]) : valuesAt key s.parts = valuesAt key s.textParts := by
  have hne {stem : String} (hstem : stem ∈ ["file-", "whitelist-", "solution-"]) (path : String) :
      stem ++ path ≠ key := by
    intro he
    have hlist := congrArg String.toList he
    simp only [List.mem_cons, List.not_mem_nil, or_false] at h hstem
    rcases h with rfl | rfl | rfl <;> rcases hstem with rfl | rfl | rfl <;> simp at hlist
  rw [parts, valuesAt_append, valuesAt_append, valuesAt_append,
    whitelistPairs, valuesAt_filePairs_of_ne (hne (by simp)), valuesAt_entryPairs_of_ne (hne (by simp)),
    valuesAt_filePairs_of_ne (hne (by simp))]
  simp

theorem valuesAt_parts_file (s : Step) (path : String) :
    valuesAt ("file-" ++ path) s.parts = (s.files.find? path).toList := by
  have htexts : valuesAt ("file-" ++ path) s.textParts = [] := by
    apply valuesAt_textParts_of_ne
    simp [String.ext_iff]
  have hwhitelist : valuesAt ("file-" ++ path) (whitelistPairs s.whitelist) = [] :=
    valuesAt_entryPairs_of_ne fun path h => by simpa using congrArg String.toList h
  have hsolution : valuesAt ("file-" ++ path) (filePairs "solution-" s.solution) = [] :=
    valuesAt_filePairs_of_ne fun path h => by simpa using congrArg String.toList h
  rw [parts, valuesAt_append, valuesAt_append, valuesAt_append, htexts, hwhitelist, hsolution,
    valuesAt_filePairs]
  simp

theorem valuesAt_parts_whitelist (s : Step) (path : String) :
    valuesAt ("whitelist-" ++ path) s.parts =
      ((s.whitelist.find? path).map fun allowed => Utf8.encode (Action.boolText allowed)).toList := by
  have htexts : valuesAt ("whitelist-" ++ path) s.textParts = [] := by
    apply valuesAt_textParts_of_ne
    simp [String.ext_iff]
  have hfiles : valuesAt ("whitelist-" ++ path) (filePairs "file-" s.files) = [] :=
    valuesAt_filePairs_of_ne fun path h => by simpa using congrArg String.toList h
  have hsolution : valuesAt ("whitelist-" ++ path) (filePairs "solution-" s.solution) = [] :=
    valuesAt_filePairs_of_ne fun path h => by simpa using congrArg String.toList h
  rw [parts, valuesAt_append, valuesAt_append, valuesAt_append, htexts, hfiles, hsolution,
    whitelistPairs,
    valuesAt_entryPairs]
  simp

theorem valuesAt_parts_solution (s : Step) (path : String) :
    valuesAt ("solution-" ++ path) s.parts = (s.solution.find? path).toList := by
  have htexts : valuesAt ("solution-" ++ path) s.textParts = [] := by
    apply valuesAt_textParts_of_ne
    simp [String.ext_iff]
  have hfiles : valuesAt ("solution-" ++ path) (filePairs "file-" s.files) = [] :=
    valuesAt_filePairs_of_ne fun path h => by simpa using congrArg String.toList h
  have hwhitelist : valuesAt ("solution-" ++ path) (whitelistPairs s.whitelist) = [] :=
    valuesAt_entryPairs_of_ne fun path h => by simpa using congrArg String.toList h
  rw [parts, valuesAt_append, valuesAt_append, valuesAt_append, htexts, hfiles, hwhitelist,
    valuesAt_filePairs]
  simp

/-- The columns of some steps are equal: the same texts in order and, for every path, the same contents in
the order of the steps that have the path. -/
structure SameColumns (steps steps' : List Step) : Prop where
  problemType : steps.map (·.problemType) = steps'.map (·.problemType)
  note : steps.map (·.note) = steps'.map (·.note)
  weight : steps.map (·.weight.plainText) = steps'.map (·.weight.plainText)
  files : ∀ path, steps.filterMap (·.files.find? path) = steps'.filterMap (·.files.find? path)
  whitelist : ∀ path,
    steps.filterMap (·.whitelist.find? path) = steps'.filterMap (·.whitelist.find? path)
  solution : ∀ path,
    steps.filterMap (·.solution.find? path) = steps'.filterMap (·.solution.find? path)

theorem SameColumns.refl (steps : List Step) : SameColumns steps steps :=
  ⟨rfl, rfl, rfl, fun _ => rfl, fun _ => rfl, fun _ => rfl⟩

theorem SameColumns.symm {steps steps' : List Step} (h : SameColumns steps steps') :
    SameColumns steps' steps :=
  ⟨h.problemType.symm, h.note.symm, h.weight.symm, fun path => (h.files path).symm,
    fun path => (h.whitelist path).symm, fun path => (h.solution path).symm⟩

theorem SameColumns.length_eq {steps steps' : List Step} (h : SameColumns steps steps') :
    steps.length = steps'.length := by
  simpa using congrArg List.length h.problemType

theorem valuesAt_parts_of_ne {key : String} (s : Step)
    (htexts : key ∉ ["problemType", "note", "weight"]) (hfiles : ∀ path, "file-" ++ path ≠ key)
    (hwhitelist : ∀ path, "whitelist-" ++ path ≠ key)
    (hsolution : ∀ path, "solution-" ++ path ≠ key) : valuesAt key s.parts = [] := by
  rw [parts, valuesAt_append, valuesAt_append, valuesAt_append, whitelistPairs,
    valuesAt_textParts_of_ne s htexts, valuesAt_filePairs_of_ne hfiles,
    valuesAt_entryPairs_of_ne hwhitelist, valuesAt_filePairs_of_ne hsolution]
  rfl

theorem valuesAt_parts_problemType (s : Step) :
    valuesAt "problemType" s.parts = [Utf8.encode s.problemType] := by
  rw [valuesAt_parts_text s (by simp)]
  simp [textParts, textPairs, valuesAt_cons]

theorem valuesAt_parts_note (s : Step) : valuesAt "note" s.parts = [Utf8.encode s.note] := by
  rw [valuesAt_parts_text s (by simp)]
  simp [textParts, textPairs, valuesAt_cons]

theorem valuesAt_parts_weight (s : Step) :
    valuesAt "weight" s.parts = [Utf8.encode s.weight.plainText] := by
  rw [valuesAt_parts_text s (by simp)]
  simp [textParts, textPairs, valuesAt_cons]

/-- The values of all keys tell the columns. -/
theorem sameColumns_of_values {steps steps' : List Step}
    (h : ∀ key, (steps.flatMap fun s => valuesAt key s.parts) =
      steps'.flatMap fun s => valuesAt key s.parts) : SameColumns steps steps' := by
  have texts {key : String} {f : Step → String}
      (hkey : ∀ s : Step, valuesAt key s.parts = [Utf8.encode (f s)]) :
      steps.map f = steps'.map f := by
    have hvalues := h key
    simp only [hkey, ← List.map_eq_flatMap] at hvalues
    have hmap : (steps.map f).map Utf8.encode = (steps'.map f).map Utf8.encode := by
      simpa only [List.map_map, Function.comp_def] using hvalues
    exact List.map_injective_iff.2 (fun _ _ he => Utf8.encode_injective he) hmap
  have column {stem : String} {f : Step → KeyMap Bytes} (path : String)
      (hstem : ∀ s : Step, valuesAt (stem ++ path) s.parts = ((f s).find? path).toList) :
      steps.filterMap (fun s => (f s).find? path) = steps'.filterMap (fun s => (f s).find? path) := by
    have hvalues := h (stem ++ path)
    simpa only [hstem, ← List.filterMap_eq_flatMap_toList] using hvalues
  constructor
  case problemType => exact texts valuesAt_parts_problemType
  case note => exact texts valuesAt_parts_note
  case weight => exact texts valuesAt_parts_weight
  case files => exact fun path => column path (valuesAt_parts_file · path)
  case solution => exact fun path => column path (valuesAt_parts_solution · path)
  case whitelist =>
    intro path
    have hvalues := h ("whitelist-" ++ path)
    simp only [valuesAt_parts_whitelist, ← List.filterMap_eq_flatMap_toList] at hvalues
    have hmap : (steps.filterMap (·.whitelist.find? path)).map
          (fun allowed => Utf8.encode (Action.boolText allowed)) =
        (steps'.filterMap (·.whitelist.find? path)).map
          (fun allowed => Utf8.encode (Action.boolText allowed)) := by
      simpa only [List.map_filterMap] using hvalues
    exact List.map_injective_iff.2
      (fun _ _ he => Action.boolText_injective (Utf8.encode_injective he)) hmap

theorem SameColumns.values {steps steps' : List Step} (h : SameColumns steps steps') (key : String) :
    (steps.flatMap fun s => valuesAt key s.parts) = steps'.flatMap fun s => valuesAt key s.parts := by
  have texts {key : String} {f : Step → String} (hf : steps.map f = steps'.map f)
      (hkey : ∀ s : Step, valuesAt key s.parts = [Utf8.encode (f s)]) :
      (steps.flatMap fun s => valuesAt key s.parts) =
        steps'.flatMap fun s => valuesAt key s.parts := by
    have hmap : (steps.map f).map Utf8.encode = (steps'.map f).map Utf8.encode := by rw [hf]
    simp only [List.map_map] at hmap
    simp only [hkey, ← List.map_eq_flatMap]
    exact hmap
  have column {stem path : String} {f : Step → KeyMap Bytes}
      (hf : steps.filterMap (fun s => (f s).find? path) =
        steps'.filterMap (fun s => (f s).find? path))
      (hstem : ∀ s : Step, valuesAt (stem ++ path) s.parts = ((f s).find? path).toList) :
      (steps.flatMap fun s => valuesAt (stem ++ path) s.parts) =
        steps'.flatMap fun s => valuesAt (stem ++ path) s.parts := by
    simp only [hstem, ← List.filterMap_eq_flatMap_toList]
    exact hf
  by_cases htexts : key ∈ ["problemType", "note", "weight"]
  · simp only [List.mem_cons, List.not_mem_nil, or_false] at htexts
    rcases htexts with rfl | rfl | rfl
    · exact texts h.problemType valuesAt_parts_problemType
    · exact texts h.note valuesAt_parts_note
    · exact texts h.weight valuesAt_parts_weight
  by_cases hfiles : ∃ path, "file-" ++ path = key
  · obtain ⟨path, rfl⟩ := hfiles
    exact column (h.files path) (valuesAt_parts_file · path)
  by_cases hsolution : ∃ path, "solution-" ++ path = key
  · obtain ⟨path, rfl⟩ := hsolution
    exact column (h.solution path) (valuesAt_parts_solution · path)
  by_cases hwhitelist : ∃ path, "whitelist-" ++ path = key
  · obtain ⟨path, rfl⟩ := hwhitelist
    have hmap := congrArg (List.map fun allowed => Utf8.encode (Action.boolText allowed))
      (h.whitelist path)
    simp only [valuesAt_parts_whitelist, ← List.filterMap_eq_flatMap_toList]
    simpa only [List.map_filterMap] using hmap
  have hnone (s : Step) : valuesAt key s.parts = [] :=
    valuesAt_parts_of_ne s htexts (not_exists.1 hfiles) (not_exists.1 hwhitelist)
      (not_exists.1 hsolution)
  rw [List.flatMap_eq_nil_iff.2 fun s _ => hnone s, List.flatMap_eq_nil_iff.2 fun s _ => hnone s]

/-- Steps have the same values under every key exactly when, for every number, those that bear it have the
same columns. -/
theorem valuesAt_steps_eq_iff {steps steps' : List Step} :
    (∀ key, valuesAt key (steps.flatMap signedPairs) = valuesAt key (steps'.flatMap signedPairs)) ↔
      ∀ number, SameColumns (numbered number steps) (numbered number steps') := by
  constructor
  · intro h number
    apply sameColumns_of_values
    intro rest
    rw [← valuesAt_steps, ← valuesAt_steps, h]
  · intro h key
    by_cases hkey : ∃ number rest, stem number ++ rest = key
    · obtain ⟨number, rest, rfl⟩ := hkey
      rw [valuesAt_steps, valuesAt_steps, (h number).values]
    · have hne (number : Int) (rest : String) : stem number ++ rest ≠ key := fun he =>
        hkey ⟨number, rest, he⟩
      rw [valuesAt_steps_of_ne steps key hne, valuesAt_steps_of_ne steps' key hne]

end Step

namespace Problem

/-- What a problem adds besides its steps. -/
def headPairs (p : Problem) : List (String × Bytes) :=
  textPairs [("id", Decimal.signedText p.id), ("unique", p.unique), ("note", p.note),
    ("problemType", p.problemType)] ++
  p.tags.map (fun tag => ("tags", Utf8.encode tag)) ++
  p.options.map (fun option => ("options", Utf8.encode option)) ++
  textPairs [("createdAt", p.createdAt.canonical)] ++
  textPairs [("updatedAt", p.updatedAt.canonical)]

theorem valuesOf_signedFields (p : Problem) (steps : List Step) (key : String) :
    (p.signedFields steps).valuesOf key =
      valuesAt key p.headPairs ++ valuesAt key (steps.flatMap Step.signedPairs) := by
  have addAll (f : Fields) (k : String) (values : List String) :
      (f.addAll k (values.map Utf8.encode)).valuesOf key =
        f.valuesOf key ++ valuesAt key (values.map fun value => (k, Utf8.encode value)) := by
    rw [Fields.valuesOf_addAll]
    by_cases h : k = key <;> simp [valuesAt, List.filterMap_map, h]
  have hsteps : Step.addFields = fun f s => f.addPairs s.signedPairs := by
    funext f s
    exact Step.addFields_eq f s
  rw [signedFields, hsteps, Fields.foldl_addPairs, Fields.valuesOf_addPairs]
  simp only [Fields.addTime_eq, Fields.addTexts_eq, Fields.valuesOf_addPairs, addAll, headPairs,
    valuesAt_append, Fields.valuesOf_empty, List.nil_append, List.append_assoc]

/-- Every key of a problem itself has a value in its own place, and none is that of a step. -/
theorem headPairs_key {p : Problem} {q : String × Bytes} (h : q ∈ p.headPairs) :
    q.1 ∈ ["id", "unique", "note", "problemType", "tags", "options", "createdAt", "updatedAt"] := by
  simp only [headPairs, textPairs, List.map_cons, List.map_nil, List.mem_append, List.mem_cons,
    List.mem_map, List.not_mem_nil, or_false] at h
  rcases h with (((h | ⟨_, _, rfl⟩) | ⟨_, _, rfl⟩) | rfl) | rfl
  · rcases h with rfl | rfl | rfl | rfl <;> simp
  all_goals simp

/-- The parts of two problems that are signed agree. -/
structure SameHead (p p' : Problem) : Prop where
  id : p.id = p'.id
  unique : p.unique = p'.unique
  note : p.note = p'.note
  problemType : p.problemType = p'.problemType
  tags : p.tags = p'.tags
  options : p.options = p'.options
  createdAt : p.createdAt.canonical = p'.createdAt.canonical
  updatedAt : p.updatedAt.canonical = p'.updatedAt.canonical

theorem valuesAt_headPairs_eq_iff {p p' : Problem} :
    (∀ key, valuesAt key p.headPairs = valuesAt key p'.headPairs) ↔ p.SameHead p' := by
  constructor
  · intro h
    have text (key : String) (f : Problem → String)
        (hkey : ∀ p, valuesAt key p.headPairs = [Utf8.encode (f p)]) : f p = f p' := by
      have hvalues := h key
      rw [hkey, hkey] at hvalues
      exact Utf8.encode_injective (List.singleton_inj.1 hvalues)
    have texts (key : String) (f : Problem → List String)
        (hkey : ∀ p, valuesAt key p.headPairs = (f p).map Utf8.encode) : f p = f p' := by
      have hvalues := h key
      rw [hkey, hkey] at hvalues
      exact List.map_injective_iff.2 (fun _ _ he => Utf8.encode_injective he) hvalues
    constructor
    case id =>
      apply Decimal.signedText_injective
      exact text "id" (fun p => Decimal.signedText p.id) fun p => by
        simp [headPairs, textPairs, valuesAt]
    case unique => exact text "unique" (·.unique) fun p => by simp [headPairs, textPairs, valuesAt]
    case note => exact text "note" (·.note) fun p => by simp [headPairs, textPairs, valuesAt]
    case problemType =>
      exact text "problemType" (·.problemType) fun p => by simp [headPairs, textPairs, valuesAt]
    case tags =>
      exact texts "tags" (·.tags) fun p => by
        simp [headPairs, textPairs, valuesAt, List.filterMap_map]
    case options =>
      exact texts "options" (·.options) fun p => by
        simp [headPairs, textPairs, valuesAt, List.filterMap_map]
    case createdAt =>
      exact text "createdAt" (·.createdAt.canonical) fun p => by simp [headPairs, textPairs, valuesAt]
    case updatedAt =>
      exact text "updatedAt" (·.updatedAt.canonical) fun p => by simp [headPairs, textPairs, valuesAt]
  · intro h key
    have hpairs : p.headPairs = p'.headPairs := by
      simp only [headPairs, h.id, h.unique, h.note, h.problemType, h.tags, h.options, h.createdAt,
        h.updatedAt]
    rw [hpairs]

/-- No key of a problem itself is that of a step. -/
theorem valuesAt_headPairs_stem (p : Problem) (number : Int) (rest : String) :
    valuesAt (Step.stem number ++ rest) p.headPairs = [] := by
  apply valuesAt_eq_nil
  intro q hq he
  have hkey := headPairs_key hq
  have hlist := (congrArg String.toList he).trans (Step.toList_stem_append number rest)
  simp only [List.mem_cons, List.not_mem_nil, or_false] at hkey
  rcases hkey with h | h | h | h | h | h | h | h <;> rw [h] at hlist <;> simp at hlist

/-- The text of a problem tells what of it is signed and, for every number, the columns of its steps; and
nothing else. -/
theorem encode_signedFields_eq_iff {p p' : Problem} {steps steps' : List Step} :
    (p.signedFields steps).encode = (p'.signedFields steps').encode ↔
      p.SameHead p' ∧
        ∀ number, Step.SameColumns (Step.numbered number steps) (Step.numbered number steps') := by
  rw [Fields.encode_eq_iff, ← valuesAt_headPairs_eq_iff, ← Step.valuesAt_steps_eq_iff]
  simp only [valuesOf_signedFields]
  constructor
  · intro h
    rw [← forall_and]
    intro key
    by_cases hkey : ∃ number rest, Step.stem number ++ rest = key
    · obtain ⟨number, rest, rfl⟩ := hkey
      have hvalues := h (Step.stem number ++ rest)
      rw [valuesAt_headPairs_stem, valuesAt_headPairs_stem] at hvalues ⊢
      exact ⟨rfl, hvalues⟩
    · have hne (number : Int) (rest : String) : Step.stem number ++ rest ≠ key := fun he =>
        hkey ⟨number, rest, he⟩
      have hvalues := h key
      rw [Step.valuesAt_steps_of_ne steps key hne, Step.valuesAt_steps_of_ne steps' key hne,
        List.append_nil, List.append_nil] at hvalues
      rw [Step.valuesAt_steps_of_ne steps key hne, Step.valuesAt_steps_of_ne steps' key hne]
      exact ⟨hvalues, rfl⟩
  · rintro ⟨hhead, hsteps⟩ key
    rw [hhead, hsteps]

end Problem

end Proctor
