import Mathlib.Data.List.Basic
import Proctor.Xml.Element

/-!
Fields of records that are taken from items, each at most once: a record ends with the value of the one
item for each field, or a field that has two is the error.

Main statement: `foldlM_take`.
-/

namespace Proctor.Xml.Reading

variable {σ φ ν ι γ : Type}

/-- The fields of a record that are known by names, each with a place of its own. -/
structure Fields (σ φ ν : Type) where
  all : List φ
  name : φ → String
  get : φ → σ → Option ν
  set : φ → σ → Option ν → σ
  mem_all : ∀ f, f ∈ all
  name_injective : Function.Injective name
  get_set_self : ∀ f s value, get f (set f s value) = value
  get_set_other : ∀ f g s value, g ≠ f → get g (set f s value) = get g s

namespace Fields

variable (fields : Fields σ φ ν)

def named? (name : String) : Option φ :=
  fields.all.find? (fields.name · = name)

theorem named?_eq_some_iff {name : String} {f : φ} : fields.named? name = some f ↔ fields.name f = name := by
  constructor
  · intro h
    simpa using List.find?_some h
  · intro h
    cases hfind : fields.named? name with
    | none => exact absurd h (by simpa using List.find?_eq_none.1 hfind f (fields.mem_all f))
    | some g =>
      have hg : fields.name g = name := by simpa using List.find?_some hfind
      rw [fields.name_injective (hg.trans h.symm)]

theorem named?_eq_none_iff {name : String} : fields.named? name = none ↔ ∀ f, fields.name f ≠ name := by
  rw [← Option.not_isSome_iff_eq_none, Option.isSome_iff_exists, not_exists]
  exact forall_congr' fun f => not_congr fields.named?_eq_some_iff

variable (mark : String) (nameOf : ι → String) (value : ι → Except Fault ν)

/-- Takes an item for the field of its name, which must be empty; no field is no error. -/
def take (s : σ) (i : ι) : Except Fault σ :=
  match fields.named? (nameOf i) with
  | some f => (once (fields.get f s) (mark ++ fields.name f) (value i)).map (fields.set f s)
  | none => .ok s

/-- How many values there are for a field, those that it holds and those of items. -/
def count (s : σ) (items : List ι) (f : φ) : Nat :=
  (fields.get f s).toList.length + items.countP (nameOf · = fields.name f)

/-- What no field is a part of stays. -/
theorem foldlM_take_keeps (view : σ → γ) (hview : ∀ f s value, view (fields.set f s value) = view s)
    {items : List ι} {s s' : σ} (h : items.foldlM (fields.take mark nameOf value) s = .ok s') :
    view s' = view s := by
  induction items generalizing s with
  | nil =>
    cases h
    rfl
  | cons i items ih =>
    rw [List.foldlM_cons] at h
    cases htake : fields.take mark nameOf value s i with
    | error fault =>
      rw [htake] at h
      cases h
    | ok middle =>
      rw [htake] at h
      rw [ih h]
      rw [take] at htake
      split at htake
      case h_1 f _ =>
        cases honce : once (fields.get f s) (mark ++ fields.name f) (value i) with
        | error fault =>
          rw [honce] at htake
          cases htake
        | ok found =>
          rw [honce] at htake
          cases htake
          exact hview ..
      case h_2 =>
        cases htake
        rfl

/-- Either a field has two values, and that is the error, or every field has the value of its item. -/
theorem foldlM_take {items : List ι}
    (hvalue : ∀ i ∈ items, ∀ f, fields.name f = nameOf i → ∃ v, value i = .ok v) (s : σ) :
    (∃ f, 1 < fields.count nameOf s items f ∧ items.foldlM (fields.take mark nameOf value) s =
        .error (.repeatedField (mark ++ fields.name f))) ∨
      (∀ f, fields.count nameOf s items f ≤ 1) ∧
        ∃ s', items.foldlM (fields.take mark nameOf value) s = .ok s' ∧ ∀ f, fields.get f s' =
          (fields.get f s).or
            ((items.find? (nameOf · = fields.name f)).bind fun i => (value i).toOption) := by
  induction items generalizing s with
  | nil =>
    refine .inr ⟨fun f => ?_, s, rfl, fun f => by simp⟩
    rw [count]
    cases fields.get f s <;> simp
  | cons i items ih =>
    have ih := ih fun i hi => hvalue i (.tail _ hi)
    rw [List.foldlM_cons, take]
    -- An item that names no field changes neither counts nor values; one that names a field is counted there.
    cases hnamed : fields.named? (nameOf i) with
    | none =>
      have hother (f : φ) : nameOf i ≠ fields.name f :=
        fun h => fields.named?_eq_none_iff.1 hnamed f h.symm
      have hcount (f : φ) : fields.count nameOf s (i :: items) f = fields.count nameOf s items f := by
        simp [count, hother f]
      have hfind (f : φ) : (i :: items).find? (nameOf · = fields.name f) =
          items.find? (nameOf · = fields.name f) := by
        simp [hother f]
      simp only [hcount, hfind]
      exact ih s
    | some f =>
      have hname := fields.named?_eq_some_iff.1 hnamed
      obtain ⟨v, hv⟩ := hvalue i (.head _) f hname
      dsimp only
      cases hget : fields.get f s with
      | some old =>
        refine .inl ⟨f, ?_, rfl⟩
        simp only [count, hget, Option.toList_some, List.length_singleton, hname, decide_true,
          List.countP_cons_of_pos]
        omega
      | none =>
        have hother {g : φ} (hg : g ≠ f) : nameOf i ≠ fields.name g := fun h =>
          hg (fields.name_injective (h.symm.trans hname.symm))
        have hcount (g : φ) : fields.count nameOf (fields.set f s (some v)) items g =
            fields.count nameOf s (i :: items) g := by
          by_cases hg : g = f
          · subst hg
            simp [count, fields.get_set_self, hget, hname]
            omega
          · simp [count, fields.get_set_other f g _ _ hg, hother hg]
        have hfound (g : φ) : (fields.get g (fields.set f s (some v))).or
              ((items.find? (nameOf · = fields.name g)).bind fun i => (value i).toOption) =
            (fields.get g s).or
              (((i :: items).find? (nameOf · = fields.name g)).bind fun i => (value i).toOption) := by
          by_cases hg : g = f
          · subst hg
            simp [fields.get_set_self, hget, hname, hv, Except.toOption]
          · simp [fields.get_set_other f g _ _ hg, hother hg]
        rw [hv]
        have hrest := ih (fields.set f s (some v))
        simp only [hcount, hfound] at hrest
        exact hrest

end Fields

end Proctor.Xml.Reading
