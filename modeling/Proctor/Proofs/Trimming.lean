import Proctor.Proofs.Lists
import Proctor.Text.Blank

/-!
Trimming takes away the blanks around a text and nothing else.

Main statement: `trim_eq_iff`, which says of a text and its core how they differ.
-/

namespace Proctor.Text

/-- A text that is its core with blanks around it; the core has no blank at either end. -/
structure Surrounds (s core : String) : Prop where
  exists_blanks : ∃ before after, s.toList = before ++ core.toList ++ after ∧
    (∀ c ∈ before, isBlank c = true) ∧ ∀ c ∈ after, isBlank c = true
  head : ∀ c ∈ core.toList.head?, isBlank c = false
  last : ∀ c ∈ core.toList.getLast?, isBlank c = false

theorem trimStart_append {before : List Char} (h : ∀ c ∈ before, isBlank c = true) (cs : List Char) :
    trimStart (before ++ cs) = trimStart cs :=
  List.dropWhile_append_of_pos h

theorem trimEnd_append {after : List Char} (h : ∀ c ∈ after, isBlank c = true) (cs : List Char) :
    trimEnd (cs ++ after) = trimEnd cs := by
  rw [trimEnd, trimEnd, List.reverse_append, List.dropWhile_append_of_pos]
  intro c hc
  exact h c (List.mem_reverse.1 hc)

theorem trimStart_of_head {cs : List Char} (h : ∀ c ∈ cs.head?, isBlank c = false) : trimStart cs = cs := by
  cases cs with
  | nil => rfl
  | cons c cs => rw [trimStart, List.dropWhile_cons_of_neg (by simp [h c rfl])]

theorem trimEnd_of_last {cs : List Char} (h : ∀ c ∈ cs.getLast?, isBlank c = false) : trimEnd cs = cs := by
  rw [trimEnd, ← trimStart, trimStart_of_head, List.reverse_reverse]
  simpa using h

/-- A text without blanks is not changed. -/
theorem trimChars_of_shown {cs : List Char} (h : ∀ c ∈ cs, isBlank c = false) : trimChars cs = cs := by
  rw [trimChars, trimStart_of_head fun c hc => h c (List.mem_of_mem_head? hc),
    trimEnd_of_last fun c hc => h c (List.mem_of_mem_getLast? hc)]

/-- Only blanks are trimmed, and all of them at the start. -/
theorem exists_trimStart (cs : List Char) :
    ∃ before, cs = before ++ trimStart cs ∧ (∀ c ∈ before, isBlank c = true) ∧
      ∀ c ∈ (trimStart cs).head?, isBlank c = false :=
  ⟨cs.takeWhile isBlank, takeWhile_dropWhile_eq_iff.1 ⟨rfl, rfl⟩⟩

theorem exists_trimEnd (cs : List Char) :
    ∃ after, cs = trimEnd cs ++ after ∧ (∀ c ∈ after, isBlank c = true) ∧
      ∀ c ∈ (trimEnd cs).getLast?, isBlank c = false := by
  obtain ⟨before, hsplit, hblank, hhead⟩ := exists_trimStart cs.reverse
  refine ⟨before.reverse, ?_, ?_, ?_⟩
  · rw [trimEnd, ← trimStart, ← List.reverse_append, ← hsplit, List.reverse_reverse]
  · intro c hc
    exact hblank c (List.mem_reverse.1 hc)
  · rw [trimEnd, ← trimStart, List.getLast?_reverse]
    exact hhead

/-- Trimming leaves the core of a text. -/
theorem surrounds_trim (s : String) : Surrounds s (trim s) := by
  obtain ⟨before, hbefore, hblank, hhead⟩ := exists_trimStart s.toList
  obtain ⟨after, hafter, hblank', hlast⟩ := exists_trimEnd (trimStart s.toList)
  have hcore : (trim s).toList = trimEnd (trimStart s.toList) := by
    rw [trim, String.toList_ofList, trimChars]
  refine ⟨⟨before, after, ?_, hblank, hblank'⟩, ?_, ?_⟩
  · rw [hcore, List.append_assoc, ← hafter, ← hbefore]
  · rw [hcore]
    -- what is left of the start does not depend on what is cut off at the end
    intro c hc
    apply hhead
    rw [hafter, List.head?_append, Option.mem_def.1 hc]
    rfl
  · rw [hcore]
    exact hlast

/-- A text has one core, which trimming finds. -/
theorem trim_eq_iff {s core : String} : trim s = core ↔ Surrounds s core := by
  constructor
  · rintro rfl
    exact surrounds_trim s
  · rintro ⟨⟨before, after, hs, hblank, hblank'⟩, hhead, hlast⟩
    rw [trim, hs, trimChars, List.append_assoc, trimStart_append hblank]
    cases hcore : core.toList with
    | nil =>
      have hempty : trimStart after = [] := List.dropWhile_eq_nil_iff.2 hblank'
      rw [List.nil_append, hempty, ← String.ofList_toList (s := core), hcore]
      rfl
    | cons c cs =>
      rw [hcore] at hhead hlast
      rw [trimStart_of_head (by simpa using hhead), trimEnd_append hblank', trimEnd_of_last hlast, ← hcore,
        String.ofList_toList]

end Proctor.Text
