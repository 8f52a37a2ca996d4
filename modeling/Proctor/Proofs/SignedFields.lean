import Proctor.Proofs.CanonicalText

/-!
Fields as the pairs that were added to them, in order. The values of a key are those of its pairs, so
what a signature binds is read off the pairs of a record.
-/

namespace Proctor.Signature

/-- Pairs whose values are texts. -/
def textPairs (l : List (String × String)) : List (String × Bytes) :=
  l.map fun p => (p.1, Utf8.encode p.2)

/-- One pair for each entry of a map, its key after `stem`. -/
def entryPairs {α : Type} (stem : String) (value : α → Bytes) (m : KeyMap α) :
    List (String × Bytes) :=
  m.entries.map fun p => (stem ++ p.1, value p.2)

def filePairs (stem : String) (files : KeyMap Bytes) : List (String × Bytes) :=
  entryPairs stem id files

theorem textPairs_injective {l l' : List (String × String)} (h : textPairs l = textPairs l') :
    l = l' := by
  refine List.map_injective_iff.2 ?_ h
  intro p q hpq
  rw [Prod.mk.injEq] at hpq
  exact Prod.ext hpq.1 (Utf8.encode_injective hpq.2)

/-- Pairs with the same keys, each once, are settled by the values of their keys. -/
theorem pairs_ext {l l' : List (String × Bytes)} (hkeys : l.map Prod.fst = l'.map Prod.fst)
    (hnodup : (l.map Prod.fst).Nodup)
    (h : ∀ key ∈ l.map Prod.fst, valuesAt key l = valuesAt key l') : l = l' := by
  induction l generalizing l' with
  | nil => exact (List.map_eq_nil_iff.1 hkeys.symm).symm
  | cons p l ih =>
    obtain _ | ⟨q, l'⟩ := l'
    · cases hkeys
    · rw [List.map_cons, List.map_cons, List.cons.injEq] at hkeys
      obtain ⟨hkey, hkeys⟩ := hkeys
      obtain ⟨hnew, hnodup⟩ := List.nodup_cons.1 hnodup
      have alone {l : List (String × Bytes)} (hl : p.1 ∉ l.map Prod.fst) : valuesAt p.1 l = [] :=
        valuesAt_eq_nil fun r hr he => hl (he ▸ List.mem_map_of_mem hr)
      have hfirst := h p.1 (.head _)
      rw [valuesAt_cons, valuesAt_cons, alone hnew, alone (hkeys ▸ hnew), if_pos rfl,
        if_pos hkey.symm] at hfirst
      have hp : p = q := Prod.ext hkey (by simpa using hfirst)
      subst hp
      rw [ih hkeys hnodup]
      intro key hmem
      have hvalues := h key (.tail _ hmem)
      rw [valuesAt_cons, valuesAt_cons] at hvalues
      exact List.append_cancel_left hvalues

/-- Texts under known keys, each once, are settled by the values of these keys. -/
theorem texts_ext (keys : List String) {l l' : List (String × String)} (hl : l.map Prod.fst = keys)
    (hl' : l'.map Prod.fst = keys) (hnodup : keys.Nodup)
    (h : ∀ key ∈ keys, valuesAt key (textPairs l) = valuesAt key (textPairs l')) : l = l' := by
  have hkeys (l : List (String × String)) : (textPairs l).map Prod.fst = l.map Prod.fst := by
    simp [textPairs]
  apply textPairs_injective
  apply pairs_ext
  · rw [hkeys, hkeys, hl, hl']
  · rw [hkeys, hl]
    exact hnodup
  · intro key hkey
    rw [hkeys, hl] at hkey
    exact h key hkey

theorem valuesAt_textPairs_of_not_mem {key : String} {l : List (String × String)}
    (h : ∀ p ∈ l, p.1 ≠ key) : valuesAt key (textPairs l) = [] := by
  apply valuesAt_eq_nil
  intro p hp
  obtain ⟨q, hq, rfl⟩ := List.mem_map.1 hp
  exact h q hq

theorem valuesAt_entryPairs {α : Type} (stem key : String) (value : α → Bytes) (m : KeyMap α) :
    valuesAt (stem ++ key) (entryPairs stem value m) = ((m.find? key).map value).toList := by
  have own (p : String × α) : valuesAt (stem ++ key) [(stem ++ p.1, value p.2)] =
      if p.1 = key then [value p.2] else [] := by
    simp [valuesAt_cons]
  rw [entryPairs, List.map_eq_flatMap, valuesAt_flatMap]
  simp only [own]
  rw [KeyMap.flatMap_key m.sorted key fun a => [value a], KeyMap.find?]
  cases m.entries.lookup key <;> rfl

theorem valuesAt_entryPairs_of_ne {α : Type} {key stem : String} {value : α → Bytes}
    {m : KeyMap α} (h : ∀ rest, stem ++ rest ≠ key) : valuesAt key (entryPairs stem value m) = [] := by
  apply valuesAt_eq_nil
  intro p hp
  obtain ⟨q, _, rfl⟩ := List.mem_map.1 hp
  exact h q.1

theorem valuesAt_filePairs (stem path : String) (files : KeyMap Bytes) :
    valuesAt (stem ++ path) (filePairs stem files) = (files.find? path).toList := by
  rw [filePairs, valuesAt_entryPairs, Option.map_id, id]

theorem valuesAt_filePairs_of_ne {key stem : String} {files : KeyMap Bytes}
    (h : ∀ path, stem ++ path ≠ key) : valuesAt key (filePairs stem files) = [] :=
  valuesAt_entryPairs_of_ne h

/-- Pairs whose keys all start alike. -/
def prefixed (stem : String) (l : List (String × Bytes)) : List (String × Bytes) :=
  l.map fun p => (stem ++ p.1, p.2)

theorem valuesAt_prefixed (stem rest : String) (l : List (String × Bytes)) :
    valuesAt (stem ++ rest) (prefixed stem l) = valuesAt rest l := by
  simp [prefixed, valuesAt, List.filterMap_map]

theorem valuesAt_prefixed_of_ne {key stem : String} {l : List (String × Bytes)}
    (h : ∀ p ∈ l, stem ++ p.1 ≠ key) : valuesAt key (prefixed stem l) = [] := by
  apply valuesAt_eq_nil
  intro p hp
  obtain ⟨q, hq, rfl⟩ := List.mem_map.1 hp
  exact h q hq

/-- Of numbered records under stems that tell the number, a key has the values of the one record whose
number it bears. -/
theorem valuesAt_numbered {α : Type} (stem : Nat → String) (parts : α → List (String × Bytes))
    (n : Nat) (rest : String)
    (h : ∀ i a, ∀ p ∈ parts a, stem i ++ p.1 = stem n ++ rest → i = n) (l : List α) :
    valuesAt (stem n ++ rest) (l.zipIdx.flatMap fun p => prefixed (stem p.2) (parts p.1)) =
      (l[n]?).elim [] fun a => valuesAt rest (parts a) := by
  have own (a : α) (i : Nat) : valuesAt (stem n ++ rest) (prefixed (stem i) (parts a)) =
      if i = n then valuesAt rest (parts a) else [] := by
    by_cases hi : i = n
    · rw [if_pos hi, hi, valuesAt_prefixed]
    · rw [if_neg hi, valuesAt_prefixed_of_ne fun p hp he => hi (h i a p hp he)]
  -- the number of the first record is any `k`, so that the induction can go on behind it
  have shifted (k : Nat) : valuesAt (stem n ++ rest)
      ((l.zipIdx k).flatMap fun p => prefixed (stem p.2) (parts p.1)) =
      if k ≤ n then (l[n - k]?).elim [] fun a => valuesAt rest (parts a) else [] := by
    induction l generalizing k with
    | nil => simp
    | cons a l ih =>
      rw [List.zipIdx_cons, List.flatMap_cons, valuesAt_append, own, ih]
      rcases Nat.lt_trichotomy k n with hlt | rfl | hgt
      · obtain ⟨d, rfl⟩ := Nat.exists_eq_add_of_lt hlt
        have hsub : k + d + 1 - k = d + 1 := by omega
        have hsub' : k + d + 1 - (k + 1) = d := by omega
        rw [if_neg (by omega), if_pos (by omega), if_pos (by omega), hsub, hsub',
          List.getElem?_cons_succ, List.nil_append]
      · rw [if_pos rfl, if_neg (by omega), if_pos (Nat.le_refl _), Nat.sub_self,
          List.getElem?_cons_zero, List.append_nil]
        rfl
      · rw [if_neg (by omega), if_neg (by omega), if_neg (by omega)]
        rfl
  simpa using shifted 0

/-- Numbered records that have a value under some key are told apart by the values of their keys. -/
theorem forall₂_of_numbered {α : Type} {R : α → α → Prop} (values : String → α → List Bytes)
    (IsKey : String → Prop) (key : String) (hkey : IsKey key) (hne : ∀ a, values key a ≠ [])
    (hR : ∀ {a a' : α}, (∀ rest, IsKey rest → values rest a = values rest a') → R a a')
    {l l' : List α}
    (h : ∀ (n : Nat) (rest : String), IsKey rest →
      (l[n]?).elim [] (values rest) = (l'[n]?).elim [] (values rest)) : List.Forall₂ R l l' := by
  apply forall₂_of_getElem?
  intro n
  have hvalues := h n
  generalize l[n]? = o at hvalues
  generalize l'[n]? = o' at hvalues
  have hkeys := hvalues key hkey
  cases o with
  | none =>
    cases o' with
    | none => exact .none
    | some a' => exact absurd hkeys.symm (hne a')
  | some a =>
    cases o' with
    | none => exact absurd hkeys (hne a)
    | some a' => exact .some (hR hvalues)

namespace Fields

theorem addPairs_append (f : Fields) (l l' : List (String × Bytes)) :
    f.addPairs (l ++ l') = (f.addPairs l).addPairs l' :=
  List.foldl_append

theorem addPairs_singleton (f : Fields) (p : String × Bytes) : f.addPairs [p] = f.add p.1 p.2 := rfl

theorem addText_eq (f : Fields) (key value : String) :
    f.addText key value = f.addPairs (textPairs [(key, value)]) := by
  rw [addText, textPairs, List.map_singleton, addPairs_singleton]

theorem addTime_eq (f : Fields) (key : String) (time : Instant) :
    f.addTime key time = f.addPairs (textPairs [(key, time.canonical)]) := by
  rw [addTime, addText_eq]

theorem addTexts_eq (f : Fields) (l : List (String × String)) :
    f.addTexts l = f.addPairs (textPairs l) := by
  rw [addTexts, addPairs, textPairs, List.foldl_map]
  rfl

theorem addFiles_eq (f : Fields) (stem : String) (files : KeyMap Bytes) :
    f.addFiles stem files = f.addPairs (filePairs stem files) := by
  rw [addFiles, addPairs, filePairs, entryPairs, List.foldl_map]
  rfl

/-- Adding the pairs of some records one record after another. -/
theorem foldl_addPairs {α : Type} (g : α → List (String × Bytes)) (l : List α) (f : Fields) :
    l.foldl (fun f a => f.addPairs (g a)) f = f.addPairs (l.flatMap g) := by
  induction l generalizing f with
  | nil => rfl
  | cons a l ih => rw [List.foldl_cons, ih, List.flatMap_cons, addPairs_append]

theorem valuesOf_addPairs_empty (l : List (String × Bytes)) (key : String) :
    (empty.addPairs l).valuesOf key = valuesAt key l := by
  rw [valuesOf_addPairs, valuesOf_empty, List.nil_append]

end Fields

end Proctor.Signature
