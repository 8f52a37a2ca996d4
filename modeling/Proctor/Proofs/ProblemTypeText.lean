import Proctor.ProblemType
import Proctor.Proofs.Decimal
import Proctor.Proofs.SignedFields

/-!
What the text of a problem type says. The parts of an action have names of which none ends in another
after a dash, so a key tells the name of the action from that of the part, and the text tells the whole
problem type.
-/

namespace Proctor

open Signature

namespace Action

def partNames : List String :=
  ["command", "parser", "message", "interactive"] ++ limitNames

theorem map_fst_signedTexts (a : Action) : a.signedTexts.map Prod.fst = partNames := rfl

theorem boolText_injective {b b' : Bool} (h : boolText b = boolText b') : b = b' := by
  revert b b'
  decide

theorem signedTexts_injective {a a' : Action} (h : a.signedTexts = a'.signedTexts) : a = a' := by
  obtain ⟨command, judge, message, interactive, limits⟩ := a
  obtain ⟨command', judge', message', interactive', limits'⟩ := a'
  obtain ⟨cpu, session, timeout, descriptors, fileSize, memory, threads⟩ := limits
  obtain ⟨cpu', session', timeout', descriptors', fileSize', memory', threads'⟩ := limits'
  simp only [signedTexts, limitNames, Limits.values, List.map_cons, List.map_nil, List.zip_cons_cons,
    List.zip_nil_right, List.cons_append, List.nil_append, List.cons.injEq, Prod.mk.injEq, true_and,
    and_true] at h
  obtain ⟨rfl, rfl, rfl, hinteractive, h₁, h₂, h₃, h₄, h₅, h₆, h₇⟩ := h
  rw [boolText_injective hinteractive, Decimal.text_injective h₁, Decimal.text_injective h₂,
    Decimal.text_injective h₃, Decimal.text_injective h₄, Decimal.text_injective h₅,
    Decimal.text_injective h₆, Decimal.text_injective h₇]

/-- The key of a part of a named action. -/
def key (name part : String) : String :=
  s!"action-{name}-{part}"

theorem toList_key (name part : String) :
    (key name part).toList = "action-".toList ++ (name.toList ++ '-' :: part.toList) := by
  simp [key, toString]

theorem eq_of_suffix : ∀ part ∈ partNames, ∀ part' ∈ partNames,
    '-' :: part.toList <:+ '-' :: part'.toList → part = part' := by
  decide

theorem key_inj {name name' part part' : String} (hpart : part ∈ partNames)
    (hpart' : part' ∈ partNames) (h : key name part = key name' part') :
    name = name' ∧ part = part' := by
  have hlist := congrArg String.toList h
  rw [toList_key, toList_key] at hlist
  have htail := List.append_cancel_left hlist
  have hsame : part = part' := by
    have hs : '-' :: part.toList <:+ name.toList ++ '-' :: part.toList := List.suffix_append _ _
    have hs' : '-' :: part'.toList <:+ name.toList ++ '-' :: part.toList :=
      htail ▸ List.suffix_append _ _
    rcases List.suffix_or_suffix_of_suffix hs hs' with hsuffix | hsuffix
    · exact eq_of_suffix part hpart part' hpart' hsuffix
    · exact (eq_of_suffix part' hpart' part hpart hsuffix).symm
  subst hsame
  exact ⟨String.toList_injective (List.append_cancel_right htail), rfl⟩

/-- An action is told by the values of its parts. -/
theorem eq_of_values {a a' : Action}
    (h : ∀ part ∈ partNames,
      valuesAt part (textPairs a.signedTexts) = valuesAt part (textPairs a'.signedTexts)) : a = a' := by
  apply signedTexts_injective
  exact texts_ext partNames rfl rfl (by decide) h

theorem valuesAt_command_ne (a : Action) : valuesAt "command" (textPairs a.signedTexts) ≠ [] := by
  simp [signedTexts, textPairs, valuesAt]

def signedPairs (name : String) (a : Action) : List (String × Bytes) :=
  textPairs (a.signedTexts.map fun p => (key name p.1, p.2))

theorem valuesAt_signedPairs {name name' part : String} (a : Action) (hpart : part ∈ partNames) :
    valuesAt (key name part) (signedPairs name' a) =
      if name' = name then valuesAt part (textPairs a.signedTexts) else [] := by
  by_cases h : name' = name
  · subst h
    have hkey (part' : String) : key name' part' = key name' part ↔ part' = part := by
      simp [key, toString]
    simp [signedPairs, textPairs, valuesAt, List.filterMap_map, Function.comp_def, hkey]
  · rw [if_neg h, signedPairs]
    apply valuesAt_textPairs_of_not_mem
    intro p hp he
    obtain ⟨q, hq, rfl⟩ := List.mem_map.1 hp
    have hq' : q.1 ∈ partNames := map_fst_signedTexts a ▸ List.mem_map_of_mem hq
    exact h (key_inj hq' hpart he).1

end Action

namespace ProblemType

def signedPairs (t : ProblemType) : List (String × Bytes) :=
  textPairs [("name", t.name), ("image", t.image)] ++ filePairs "file-" t.files ++
    t.actions.entries.flatMap fun p => p.2.signedPairs p.1

theorem signedFields_eq (t : ProblemType) :
    t.signedFields = Fields.empty.addPairs t.signedPairs := by
  simp only [signedFields, signedPairs, Fields.addTexts_eq, Fields.addFiles_eq,
    Fields.addPairs_append]
  exact Fields.foldl_addPairs (fun p : String × Action => p.2.signedPairs p.1) _ _

theorem valuesOf_signedFields (t : ProblemType) (key : String) :
    t.signedFields.valuesOf key = valuesAt key t.signedPairs := by
  rw [signedFields_eq, Fields.valuesOf_addPairs_empty]

/-- A key that does not start as those of actions do has no value from an action. -/
theorem valuesAt_actions (t : ProblemType) (key : String)
    (h : ∀ rest, key.toList ≠ "action-".toList ++ rest) :
    valuesAt key (t.actions.entries.flatMap fun p => p.2.signedPairs p.1) = [] := by
  apply valuesAt_eq_nil
  intro p hp he
  obtain ⟨q, _, hp⟩ := List.mem_flatMap.1 hp
  obtain ⟨r, hr, rfl⟩ := List.mem_map.1 hp
  obtain ⟨part, _, rfl⟩ := List.mem_map.1 hr
  exact h _ ((congrArg String.toList he).symm.trans (Action.toList_key q.1 part.1))

theorem valuesAt_name (t : ProblemType) : valuesAt "name" t.signedPairs = [Utf8.encode t.name] := by
  have hfiles : valuesAt "name" (filePairs "file-" t.files) = [] :=
    valuesAt_filePairs_of_ne fun path h => by simpa using congrArg String.toList h
  have hactions := valuesAt_actions t "name" (by simp)
  simp [signedPairs, hfiles, hactions, textPairs, valuesAt_cons]

theorem valuesAt_image (t : ProblemType) :
    valuesAt "image" t.signedPairs = [Utf8.encode t.image] := by
  have hfiles : valuesAt "image" (filePairs "file-" t.files) = [] :=
    valuesAt_filePairs_of_ne fun path h => by simpa using congrArg String.toList h
  have hactions := valuesAt_actions t "image" (by simp)
  simp [signedPairs, hfiles, hactions, textPairs, valuesAt_cons]

theorem valuesAt_file (t : ProblemType) (path : String) :
    valuesAt ("file-" ++ path) t.signedPairs = (t.files.find? path).toList := by
  have htexts : valuesAt ("file-" ++ path) (textPairs [("name", t.name), ("image", t.image)]) = [] := by
    apply valuesAt_textPairs_of_not_mem
    intro p hp he
    have hlist := congrArg String.toList he
    rcases List.mem_pair.1 hp with rfl | rfl <;> simp at hlist
  have hactions := valuesAt_actions t ("file-" ++ path) (by simp)
  rw [signedPairs, valuesAt_append, valuesAt_append, htexts, hactions, valuesAt_filePairs]
  simp

theorem valuesAt_action (t : ProblemType) (name : String) {part : String}
    (hpart : part ∈ Action.partNames) :
    valuesAt (Action.key name part) t.signedPairs =
      (t.actions.find? name).elim [] fun a => valuesAt part (textPairs a.signedTexts) := by
  have htexts :
      valuesAt (Action.key name part) (textPairs [("name", t.name), ("image", t.image)]) = [] := by
    apply valuesAt_textPairs_of_not_mem
    intro p hp he
    have hlist := (congrArg String.toList he).trans (Action.toList_key name part)
    rcases List.mem_pair.1 hp with rfl | rfl <;> simp at hlist
  have hfiles : valuesAt (Action.key name part) (filePairs "file-" t.files) = [] := by
    apply valuesAt_filePairs_of_ne
    intro path he
    have hlist := (congrArg String.toList he).trans (Action.toList_key name part)
    simp at hlist
  rw [signedPairs, valuesAt_append, valuesAt_append, htexts, hfiles, valuesAt_flatMap]
  simp only [Action.valuesAt_signedPairs _ hpart, List.nil_append]
  exact KeyMap.flatMap_key t.actions.sorted name fun a => valuesAt part (textPairs a.signedTexts)

/-- The actions are told one by one: an action that is there has a command. -/
theorem actions_of_values {t t' : ProblemType}
    (h : ∀ key, valuesAt key t.signedPairs = valuesAt key t'.signedPairs) : t.actions = t'.actions := by
  apply KeyMap.ext_find?
  intro name
  have hvalues (part : String) (hpart : part ∈ Action.partNames) :=
    (valuesAt_action t name hpart).symm.trans ((h _).trans (valuesAt_action t' name hpart))
  generalize t.actions.find? name = o at hvalues
  generalize t'.actions.find? name = o' at hvalues
  have hcommand := hvalues "command" (by decide)
  cases o with
  | none =>
    cases o' with
    | none => rfl
    | some a' => exact absurd hcommand.symm a'.valuesAt_command_ne
  | some a =>
    cases o' with
    | none => exact absurd hcommand a.valuesAt_command_ne
    | some a' => rw [Action.eq_of_values hvalues]

/-- Two problem types with one text are the same. -/
theorem encode_signedFields_injective {t t' : ProblemType}
    (h : t.signedFields.encode = t'.signedFields.encode) : t = t' := by
  have hvalues (key : String) : valuesAt key t.signedPairs = valuesAt key t'.signedPairs := by
    rw [← valuesOf_signedFields, ← valuesOf_signedFields]
    exact Fields.encode_eq_iff.1 h key
  have hname : t.name = t'.name := by
    have hv := hvalues "name"
    rw [valuesAt_name, valuesAt_name] at hv
    exact Utf8.encode_injective (by simpa using hv)
  have himage : t.image = t'.image := by
    have hv := hvalues "image"
    rw [valuesAt_image, valuesAt_image] at hv
    exact Utf8.encode_injective (by simpa using hv)
  have hfiles : t.files = t'.files := by
    apply KeyMap.ext_find?
    intro path
    have hv := hvalues ("file-" ++ path)
    rw [valuesAt_file, valuesAt_file] at hv
    exact option_toList_injective hv
  have hactions := actions_of_values hvalues
  cases t
  cases t'
  simp only [ProblemType.mk.injEq]
  exact ⟨hname, himage, hfiles, hactions⟩

/-- Problem types have one text exactly when they are the same, whatever names their files and actions
have. -/
theorem signed_text_eq_iff_eq {t t' : ProblemType} :
    t.signedFields.encode = t'.signedFields.encode ↔ t = t' := by
  constructor
  · exact encode_signedFields_injective
  · rintro rfl
    rfl

end ProblemType

end Proctor
