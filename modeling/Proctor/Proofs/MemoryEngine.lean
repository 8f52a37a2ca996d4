import Proctor.Engine.Memory
import Proctor.Proofs.KeyMap

/-!
The engine that keeps homes in memory: what an operation leaves as it was, what each operation is when
nothing fails without a reason, and what is in a home after a creation or a copy that went well.
-/

namespace Proctor

namespace Memory

/-- What an operation in the container of a name leaves as it was: every other home, and that the container
is there. -/
structure Within (name : String) (m m' : Memory) : Prop where
  mishaps : m'.mishaps = m.mishaps
  home : ∀ other, other ≠ name → m'.homes.find? other = m.homes.find? other
  held : (m.homes.find? name).isSome → (m'.homes.find? name).isSome

theorem Within.refl (name : String) (m : Memory) : Within name m m :=
  ⟨rfl, fun _ _ => rfl, id⟩

/-- Writing into the home of a name is within that name. -/
theorem within_insert {name : String} {m m' : Memory} {home : KeyMap Bytes}
    (hmishaps : m'.mishaps = m.mishaps) (hhomes : m'.homes = m.homes.insert name home) :
    Within name m m' where
  mishaps := hmishaps
  home other hne := by rw [hhomes, KeyMap.find?_insert_other _ _ _ _ hne]
  held _ := by rw [hhomes, KeyMap.find?_insert_self, Option.isSome_some]

/-- Copying into a container leaves all others alone, also when it fails. -/
theorem within_copyIn (name : String) (archive : Bytes) (m : Memory) :
    Within name m (Memory.copyIn name archive m).2 := by
  unfold Memory.copyIn
  cases unpacked archive with
  | error e => exact .refl name m
  | ok files =>
    by_cases hfull : m.failsCopyIn
    · simp only [hfull, if_true]
      exact .refl name m
    · simp only [hfull, Bool.false_eq_true, if_false]
      cases m.homes.find? name with
      | none => exact .refl name m
      | some home => exact within_insert rfl rfl

/-- Executing in a container leaves all others alone, also when the command hangs. -/
theorem within_exec (name : String) (command : List String) (m : Memory) :
    Within name m (Memory.exec name command m).2 := by
  unfold Memory.exec
  by_cases hhangs : m.hangs
  · simp only [hhangs, if_true]
    exact .refl name m
  · simp only [hhangs, Bool.false_eq_true, if_false]
    cases m.homes.find? name with
    | none => exact ⟨rfl, fun _ _ => rfl, id⟩
    | some home => exact within_insert rfl rfl

theorem within_copyOut (name : String) (uid : Nat) (m : Memory) :
    Within name m (Memory.copyOut name uid m).2 := by
  unfold Memory.copyOut
  cases m.homes.find? name <;> exact .refl name m

section

variable {m : Memory} (h : m.mishaps = {})

include h

theorem engine_create (c : Container) : engine.create c m = Memory.create c m := by
  cases m
  cases h
  rfl

theorem engine_copyIn (name : String) (uid : Nat) (archive : Bytes) :
    engine.copyIn name uid archive m = Memory.copyIn name archive m := by
  cases m
  cases h
  rfl

theorem engine_remove (name : String) : engine.remove name m = Memory.remove name m := by
  cases m
  cases h
  rfl

theorem engine_copyOut (name : String) (uid : Nat) :
    engine.copyOut name uid m = Memory.copyOut name uid m := by
  cases m
  cases h
  rfl

/-- Without mishaps a command runs as it is, and nothing strikes behind it. -/
theorem engine_exec (name : String) (uid : Nat) (command : List String) :
    engine.exec name uid command m = Memory.exec name command m := by
  have hmishaps := (within_exec name command m).mishaps.trans h
  have hengine : engine.exec name uid command m = execToEnd name command m := by
    cases m
    cases h
    rfl
  rw [hengine, execToEnd]
  revert hmishaps
  rcases Memory.exec name command m with ⟨e, m'⟩
  intro hmishaps
  cases m'
  cases hmishaps
  cases hending : e.ending <;> simp only [hending]
  rfl

end

/-- A container that was created has an empty home. -/
theorem home_of_engine_create {m m' : Memory} {c : Container} (h : engine.create c m = (.ok (), m')) :
    m'.homes.find? c.name = some .empty := by
  simp only [engine, orMishap] at h
  split at h
  · cases h
  · simp only [create] at h
    split at h
    · cases h
    · split at h
      · cases h
      · cases h
        exact KeyMap.find?_insert_self _ _ _

/-- Files that were copied in stand in the home together with those that were there. -/
theorem home_of_engine_copyIn {m m' : Memory} {name : String} {uid : Nat} {archive : Bytes}
    {home : KeyMap Bytes} (hhome : m.homes.find? name = some home)
    (h : engine.copyIn name uid archive m = (.ok (), m')) :
    ∃ files, unpacked archive = .ok files ∧ m'.homes.find? name = some (home.union files) := by
  simp only [engine, orMishap] at h
  split at h
  · cases h
  · simp only [copyIn] at h
    split at h
    · cases h
    · rename_i files hfiles
      split at h
      · cases h
      · simp only [hhome] at h
        cases h
        exact ⟨files, hfiles, KeyMap.find?_insert_self _ _ _⟩

end Memory

end Proctor
