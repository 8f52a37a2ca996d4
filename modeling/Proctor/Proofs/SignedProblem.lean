import Mathlib.Data.List.Nodup
import Proctor.Proofs.Admission
import Proctor.Proofs.ProblemText

/-!
What a problem signature binds where every step has a number of its own. The columns of one number are
then one step, so the text tells the steps themselves. Main statement: problems have one text exactly when
they agree in what is signed of them and the steps are the same up to their order.
-/

namespace Proctor

/-- What of a step is signed: all but the id of its problem and its instructions, and the weight as it
prints. -/
structure SignedStep where
  step : Int
  problemType : String
  note : String
  weight : String
  files : KeyMap Bytes
  whitelist : KeyMap Bool
  solution : KeyMap Bytes
  deriving DecidableEq

namespace Step

def signedPart (s : Step) : SignedStep :=
  ⟨s.step, s.problemType, s.note, s.weight.plainText, s.files, s.whitelist, s.solution⟩

theorem map_step_signedPart (steps : List Step) :
    (steps.map signedPart).map (·.step) = steps.map (·.step) := by
  rw [List.map_map]
  rfl

variable {steps steps' : List Step}

theorem length_numbered_le_one (h : (steps.map (·.step)).Nodup) (number : Int) :
    (numbered number steps).length ≤ 1 := by
  rw [← count_number]
  exact List.nodup_iff_count_le_one.1 h number

theorem mem_numbered {number : Int} {s : Step} :
    s ∈ numbered number steps ↔ s ∈ steps ∧ s.step = number := by
  simp [numbered]

/-- A step whose number no other bears is alone under it. -/
theorem numbered_eq_singleton (h : (steps.map (·.step)).Nodup) {s : Step} (hs : s ∈ steps) :
    numbered s.step steps = [s] := by
  have hmem : s ∈ numbered s.step steps := mem_numbered.2 ⟨hs, rfl⟩
  have hlength := length_numbered_le_one h s.step
  have hone : (numbered s.step steps).length = 1 :=
    Nat.le_antisymm hlength (List.length_pos_of_mem hmem)
  obtain ⟨t, ht⟩ := List.length_eq_one_iff.1 hone
  rw [ht, List.mem_singleton] at hmem
  rw [ht, hmem]

theorem signedPart_eq_of_sameColumns {s s' : Step} (hnumber : s.step = s'.step)
    (h : SameColumns [s] [s']) : s.signedPart = s'.signedPart := by
  have column {α : Type} {f : Step → KeyMap α}
      (hf : ∀ path, [s].filterMap (fun t => (f t).find? path) = [s'].filterMap fun t => (f t).find? path) :
      f s = f s' := by
    apply KeyMap.ext_find?
    intro path
    apply option_toList_injective
    simpa [List.filterMap_eq_flatMap_toList] using hf path
  have htype : s.problemType = s'.problemType := List.singleton_inj.1 h.problemType
  have hnote : s.note = s'.note := List.singleton_inj.1 h.note
  have hweight : s.weight.plainText = s'.weight.plainText := List.singleton_inj.1 h.weight
  simp only [signedPart, SignedStep.mk.injEq]
  exact ⟨hnumber, htype, hnote, hweight, column h.files, column h.whitelist, column h.solution⟩

/-- Where columns agree number by number, a step that is alone under its number has its like. -/
theorem exists_like (hnodup : (steps.map (·.step)).Nodup)
    (h : ∀ number, SameColumns (numbered number steps) (numbered number steps')) {s : Step}
    (hs : s ∈ steps) : ∃ s' ∈ steps', s'.signedPart = s.signedPart := by
  have hcolumns := h s.step
  rw [numbered_eq_singleton hnodup hs] at hcolumns
  obtain ⟨s', hs'⟩ := List.length_eq_one_iff.1 hcolumns.length_eq.symm
  obtain ⟨hmem, hnumber⟩ := mem_numbered.1 (hs' ▸ List.mem_singleton_self s')
  rw [hs'] at hcolumns
  exact ⟨s', hmem, signedPart_eq_of_sameColumns hnumber hcolumns.symm⟩

/-- Columns are read off the signed parts alone. -/
theorem sameColumns_of_signedPart (h : steps.map signedPart = steps'.map signedPart) :
    SameColumns steps steps' := by
  have texts {α : Type} (f : SignedStep → α) :
      steps.map (fun s => f s.signedPart) = steps'.map fun s => f s.signedPart := by
    simpa [Function.comp_def] using congrArg (List.map f) h
  have column {α : Type} (f : SignedStep → KeyMap α) (path : String) :
      steps.filterMap (fun s => (f s.signedPart).find? path) =
        steps'.filterMap fun s => (f s.signedPart).find? path := by
    simpa [List.filterMap_map] using congrArg (List.filterMap fun s => (f s).find? path) h
  exact ⟨texts (·.problemType), texts (·.note), texts (·.weight), column (·.files),
    column (·.whitelist), column (·.solution)⟩

theorem perm_numbered (h : (steps.map signedPart).Perm (steps'.map signedPart)) (number : Int) :
    ((numbered number steps).map signedPart).Perm ((numbered number steps').map signedPart) := by
  have hfilter (steps : List Step) :
      (numbered number steps).map signedPart = (steps.map signedPart).filter (·.step = number) := by
    rw [List.filter_map]
    rfl
  rw [hfilter, hfilter]
  exact h.filter _

/-- Steps with numbers of their own have the same columns for every number exactly when they are the same up
to their order. -/
theorem sameColumns_iff_perm (h : (steps.map (·.step)).Nodup) (h' : (steps'.map (·.step)).Nodup) :
    (∀ number, SameColumns (numbered number steps) (numbered number steps')) ↔
      (steps.map signedPart).Perm (steps'.map signedPart) := by
  constructor
  · intro hcolumns
    have nodup {steps : List Step} (h : (steps.map (·.step)).Nodup) : (steps.map signedPart).Nodup :=
      List.Nodup.of_map (·.step) (map_step_signedPart steps ▸ h)
    rw [List.perm_ext_iff_of_nodup (nodup h) (nodup h')]
    intro part
    constructor
    · intro hpart
      obtain ⟨s, hs, rfl⟩ := List.mem_map.1 hpart
      exact List.mem_map.2 (exists_like h hcolumns hs)
    · intro hpart
      obtain ⟨s, hs, rfl⟩ := List.mem_map.1 hpart
      exact List.mem_map.2 (exists_like h' (fun number => (hcolumns number).symm) hs)
  · intro hperm number
    apply sameColumns_of_signedPart
    have hnumber := perm_numbered hperm number
    have hlength : ((numbered number steps').map signedPart).length ≤ 1 := by
      rw [List.length_map]
      exact length_numbered_le_one h' number
    generalize (numbered number steps').map signedPart = parts at hnumber hlength
    match parts with
    | [] => exact hnumber.eq_nil
    | [part] => exact List.perm_singleton.1 hnumber
    | _ :: _ :: _ => simp at hlength

end Step

namespace Problem

variable {p p' : Problem} {steps steps' : List Step}

theorem steps_of_text (h : (steps.map (·.step)).Nodup) (h' : (steps'.map (·.step)).Nodup)
    (htext : (p.signedFields steps).encode = (p'.signedFields steps').encode) {s s' : Step}
    (hs : s ∈ steps) (hs' : s' ∈ steps') (hnumber : s.step = s'.step) :
    s.signedPart = s'.signedPart := by
  have hcolumns := (encode_signedFields_eq_iff.1 htext).2 s.step
  rw [Step.numbered_eq_singleton h hs, hnumber, Step.numbered_eq_singleton h' hs'] at hcolumns
  exact Step.signedPart_eq_of_sameColumns hnumber hcolumns

/-- Problems whose steps have numbers of their own have one text exactly when they agree in what is signed
and have the same steps up to order; so a change in a file, in the whitelist or in the solution of a step
changes the text. -/
theorem signed_text_eq_iff_perm (h : (steps.map (·.step)).Nodup) (h' : (steps'.map (·.step)).Nodup) :
    ((p.signedFields steps).encode = (p'.signedFields steps').encode ↔
      p.SameHead p' ∧ (steps.map Step.signedPart).Perm (steps'.map Step.signedPart)) ∧
    ∀ s ∈ steps, ∀ s' ∈ steps', s.step = s'.step →
      s.files ≠ s'.files ∨ s.whitelist ≠ s'.whitelist ∨ s.solution ≠ s'.solution →
      (p.signedFields steps).encode ≠ (p'.signedFields steps').encode := by
  constructor
  · rw [encode_signedFields_eq_iff, Step.sameColumns_iff_perm h h']
  · intro s hs s' hs' hnumber hchanged htext
    have hpart := steps_of_text h h' htext hs hs' hnumber
    simp only [Step.signedPart, SignedStep.mk.injEq] at hpart
    obtain ⟨_, _, _, _, hfiles, hwhitelist, hsolution⟩ := hpart
    rcases hchanged with hne | hne | hne
    · exact hne hfiles
    · exact hne hwhitelist
    · exact hne hsolution

/-- The order of two steps and the instructions of one do not matter; a byte of a file does. -/
theorem fizzbuzz_steps_reordered :
    let p := Bundle.fizzbuzzProblem
    let first : Step := { step := 1, problemType := "python3", instructions := "Count." }
    let second : Step := { step := 2, problemType := "python3", files := .ofList [("test.py", [49])] }
    let silent : Step := { first with instructions := "" }
    let edited : Step := { second with files := .ofList [("test.py", [50])] }
    (p.signedFields [first, second]).encode = (p.signedFields [second, silent]).encode ∧
      (p.signedFields [first, second]).encode ≠ (p.signedFields [first, edited]).encode := by
  intro p first second silent edited
  have hnodup : ([first, second].map (·.step)).Nodup := by decide
  have hreordered : ([second, silent].map (·.step)).Nodup := by decide
  have hedited : ([first, edited].map (·.step)).Nodup := by decide
  have hfiles : second.files ≠ edited.files := by
    intro he
    have hfound := congrArg (·.find? "test.py") he
    simp [second, edited, KeyMap.find?_ofList] at hfound
  constructor
  · exact (signed_text_eq_iff_perm hnodup hreordered).1.2
      ⟨⟨rfl, rfl, rfl, rfl, rfl, rfl, rfl, rfl⟩, List.Perm.swap ..⟩
  · exact (signed_text_eq_iff_perm hnodup hedited).2 second (by simp) edited (by simp) rfl (.inl hfiles)

end Problem

end Proctor
