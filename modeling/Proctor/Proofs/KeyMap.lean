import Mathlib.Data.List.Basic
import Proctor.KeyMap

/-!
Look-up in finite maps. A map is what `find?` finds in it: every operation is described by the values
that are found after it, and two maps in which the same is found are equal.
-/

namespace Proctor.KeyMap

variable {α β : Type}

theorem lookup_pair (k' k : String) (v : α) (l : List (String × α)) :
    ((k, v) :: l).lookup k' = if k' = k then some v else l.lookup k' := by
  by_cases h : k' = k
  · subst h
    simp
  · have h' : (k' == k) = false := by simpa using h
    simp [List.lookup_cons, h, h']

theorem lookup_insertPair (k : String) (v : α) (l : List (String × α)) (k' : String) :
    (insertPair k v l).lookup k' = if k' = k then some v else l.lookup k' := by
  induction l with
  | nil => simp [insertPair, lookup_pair]
  | cons q rest ih =>
    obtain ⟨k₁, v₁⟩ := q
    unfold insertPair
    split
    · rw [lookup_pair]
    · split
      · rename_i heq
        subst heq
        rw [lookup_pair, lookup_pair]
        split <;> rfl
      · rename_i hne
        rw [lookup_pair, lookup_pair, ih]
        by_cases h : k' = k
        · subst h
          rw [if_neg hne, if_pos rfl, if_pos rfl]
        · rw [if_neg h, if_neg h]

@[simp] theorem find?_empty (k : String) : (empty : KeyMap α).find? k = none := rfl

/-- An insertion is seen at its own key and nowhere else. -/
theorem find?_insert (m : KeyMap α) (k : String) (v : α) (k' : String) :
    (m.insert k v).find? k' = if k' = k then some v else m.find? k' :=
  lookup_insertPair k v m.entries k'

@[simp] theorem find?_insert_self (m : KeyMap α) (k : String) (v : α) :
    (m.insert k v).find? k = some v := by
  simp [find?_insert]

theorem find?_insert_other (m : KeyMap α) (k : String) (v : α) (k' : String) (h : k' ≠ k) :
    (m.insert k v).find? k' = m.find? k' := by
  simp [find?_insert, h]

/-- In sorted pairs the key of a pair finds that pair. -/
theorem lookup_eq_some_of_mem {l : List (String × α)} (hl : l.Pairwise (·.1 < ·.1))
    {k : String} {v : α} (h : (k, v) ∈ l) : l.lookup k = some v := by
  induction l with
  | nil => cases h
  | cons q rest ih =>
    obtain ⟨k₁, v₁⟩ := q
    obtain ⟨hlt, hrest⟩ := List.pairwise_cons.1 hl
    rcases List.mem_cons.1 h with h | h
    · cases h
      simp
    · have hne : k ≠ k₁ := by
        intro he
        exact String.lt_irrefl k (by simpa [he] using hlt _ h)
      rw [lookup_pair, if_neg hne]
      exact ih hrest h

theorem mem_of_lookup_eq_some {l : List (String × α)} {k : String} {v : α}
    (h : l.lookup k = some v) : (k, v) ∈ l := by
  induction l with
  | nil => cases h
  | cons q rest ih =>
    obtain ⟨k₁, v₁⟩ := q
    rw [lookup_pair] at h
    split at h
    · rename_i hk
      cases h
      subst hk
      exact .head _
    · exact .tail _ (ih h)

theorem mem_entries {m : KeyMap α} {k : String} {v : α} :
    (k, v) ∈ m.entries ↔ m.find? k = some v :=
  ⟨lookup_eq_some_of_mem m.sorted, mem_of_lookup_eq_some⟩

theorem ext_entries {m n : KeyMap α} (h : m.entries = n.entries) : m = n := by
  cases m
  cases n
  cases h
  rfl

/-- Sorted pairs are settled by which pairs they are. -/
theorem sorted_ext {l l' : List (String × α)} (hl : l.Pairwise (·.1 < ·.1))
    (hl' : l'.Pairwise (·.1 < ·.1)) (h : ∀ p, p ∈ l ↔ p ∈ l') : l = l' := by
  have nodup {l : List (String × α)} (hl : l.Pairwise (·.1 < ·.1)) : l.Nodup := by
    apply List.Pairwise.imp ?_ hl
    intro a b hab he
    subst he
    exact String.lt_irrefl _ hab
  have hp : l.Perm l' := (List.perm_ext_iff_of_nodup (nodup hl) (nodup hl')).2 h
  refine hp.eq_of_pairwise ?_ hl hl'
  intro a b _ _ hab hba
  exact absurd (String.lt_trans hab hba) (String.lt_irrefl _)

theorem ext_find? {m n : KeyMap α} (h : ∀ k, m.find? k = n.find? k) : m = n := by
  apply ext_entries
  apply sorted_ext m.sorted n.sorted
  intro p
  obtain ⟨k, v⟩ := p
  rw [mem_entries, mem_entries, h k]

/-- The last of some pairs with a key stands, and otherwise what was there before. -/
theorem find?_foldl_insert (l : List (String × α)) (m : KeyMap α) (k : String) :
    (l.foldl (fun m p => m.insert p.1 p.2) m).find? k = (l.reverse.lookup k).or (m.find? k) := by
  induction l generalizing m with
  | nil => simp
  | cons p rest ih =>
    obtain ⟨k₁, v₁⟩ := p
    rw [List.foldl_cons, ih, List.reverse_cons, List.lookup_append, find?_insert, lookup_pair]
    cases rest.reverse.lookup k with
    | some v => rfl
    | none => by_cases h : k = k₁ <;> simp [h]

theorem find?_ofList (l : List (String × α)) (k : String) :
    (ofList l).find? k = l.reverse.lookup k := by
  rw [ofList, find?_foldl_insert]
  simp

theorem lookup_reverse_entries (m : KeyMap α) (k : String) :
    m.entries.reverse.lookup k = m.find? k := by
  rw [← find?_ofList]
  have hmem (v : α) : m.entries.reverse.lookup k = some v ↔ m.find? k = some v := by
    constructor
    · intro h
      exact mem_entries.1 (List.mem_reverse.1 (mem_of_lookup_eq_some h))
    · intro h
      cases hl : m.entries.reverse.lookup k with
      | none =>
        have := List.lookup_eq_none_iff.1 hl (k, v) (List.mem_reverse.2 (mem_entries.2 h))
        simp at this
      | some w =>
        have := mem_entries.1 (List.mem_reverse.1 (mem_of_lookup_eq_some hl))
        rw [h] at this
        exact this.symm
  rw [find?_ofList]
  exact Option.ext hmem

theorem find?_union (m n : KeyMap α) (k : String) :
    (m.union n).find? k = (n.find? k).or (m.find? k) := by
  rw [union, find?_foldl_insert, lookup_reverse_entries]

@[simp] theorem union_empty (m : KeyMap α) : m.union empty = m := rfl

theorem empty_union (m : KeyMap α) : empty.union m = m := by
  apply ext_find?
  intro k
  simp [find?_union]

@[simp] theorem ofList_entries (m : KeyMap α) : ofList m.entries = m :=
  m.empty_union

theorem entries_ofList_singleton (k : String) (v : α) : (ofList [(k, v)]).entries = [(k, v)] :=
  rfl

theorem find?_filter (keep : String → α → Bool) (m : KeyMap α) (k : String) :
    (m.filter keep).find? k = (m.find? k).filter (keep k) := by
  apply Option.ext
  intro v
  rw [← mem_entries, filter, List.mem_filter, mem_entries, Option.filter_eq_some_iff]

theorem find?_erase (m : KeyMap α) (k k' : String) :
    (m.erase k).find? k' = if k' = k then none else m.find? k' := by
  apply Option.ext
  intro v
  rw [← mem_entries, erase, List.mem_filter, mem_entries]
  by_cases h : k' = k <;> simp [h]

/-- In sorted pairs at most one has a given key. -/
theorem flatMap_key {l : List (String × α)} (hl : l.Pairwise (·.1 < ·.1)) (k : String)
    (g : α → List β) :
    (l.flatMap fun p => if p.1 = k then g p.2 else []) = (l.lookup k).elim [] g := by
  induction l with
  | nil => rfl
  | cons p rest ih =>
    obtain ⟨k₁, v⟩ := p
    obtain ⟨hlt, hrest⟩ := List.pairwise_cons.1 hl
    rw [List.flatMap_cons, ih hrest, lookup_pair]
    by_cases h : k = k₁
    · subst h
      have hnone : rest.lookup k = none := by
        rw [List.lookup_eq_none_iff]
        intro q hq
        have hne : k ≠ q.1 := fun he => String.lt_irrefl k (by simpa [← he] using hlt q hq)
        simpa using hne
      simp [hnone]
    · rw [if_neg (Ne.symm h), if_neg h, List.nil_append]

end Proctor.KeyMap
