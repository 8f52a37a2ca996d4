import Mathlib.Data.List.Nodup
import Mathlib.Data.List.Perm.Subperm
import Proctor.Uids

/-!
Reserving user ids: one more is reserved each time, and there is a free one as long as fewer are reserved
than there are. In a pool that reserves each of its user ids at most once, that is until all are reserved.
-/

namespace Proctor.Uids

variable {u v : Uids} {uid draw : Nat}

theorem reserved_of_reserve? (h : u.reserve? draw = some (uid, v)) :
    v.reserved = uid :: u.reserved := by
  obtain ⟨free, _, hpair⟩ := Option.map_eq_some_iff.1 h
  cases hpair
  rfl

/-- Releasing what was just reserved undoes the reservation. -/
theorem release_of_reserve? (h : u.reserve? draw = some (uid, v)) : v.release uid = u := by
  rw [release, reserved_of_reserve? h, List.erase_cons_head]

theorem mem_all : uid ∈ all ↔ 10000 ≤ uid ∧ uid ≤ 10999 := by
  rw [all, List.mem_range'_1, first, count]
  omega

theorem mem_free : uid ∈ u.free ↔ uid ∈ all ∧ uid ∉ u.reserved := by
  simp [free]

theorem mem_free_of_reserve? (h : u.reserve? draw = some (uid, v)) : uid ∈ u.free := by
  obtain ⟨_, hget, hpair⟩ := Option.map_eq_some_iff.1 h
  cases hpair
  exact List.mem_of_getElem? hget

/-- A draw fails only where nothing is free. -/
theorem reserve?_isSome_iff : (u.reserve? draw).isSome ↔ u.free ≠ [] := by
  rw [reserve?, Option.isSome_map, isSome_getElem?]
  constructor
  · rintro hlt hnil
    simp [hnil] at hlt
  · intro hne
    exact Nat.mod_lt _ (List.length_pos_iff.2 hne)

/-- As long as fewer are reserved than there are, one is free. -/
theorem free_ne_nil (h : u.reserved.length < count) : u.free ≠ [] := by
  intro hnil
  have hsubset : all ⊆ u.reserved := by
    intro uid huid
    have hreserved := List.filter_eq_nil_iff.1 hnil uid huid
    simpa using hreserved
  have hnodup : all.Nodup := List.nodup_range'
  have hle := (hnodup.subperm hsubset).length_le
  rw [all, List.length_range'] at hle
  omega

theorem length_reserved_le (hnodup : u.reserved.Nodup) (hsubset : u.reserved ⊆ all) :
    u.reserved.length ≤ count := by
  have hle := (hnodup.subperm hsubset).length_le
  rwa [all, List.length_range'] at hle

/-- A pool without repetitions refuses exactly when it is used up. -/
theorem reserve?_eq_none_iff (hnodup : u.reserved.Nodup) (hsubset : u.reserved ⊆ all) :
    u.reserve? draw = none ↔ u.reserved.length = count := by
  rw [← Option.not_isSome_iff_eq_none, reserve?_isSome_iff, not_not]
  constructor
  · intro hnil
    by_contra hne
    exact free_ne_nil (Nat.lt_of_le_of_ne (length_reserved_le hnodup hsubset) hne) hnil
  · intro hlength
    have hsame : all.length = u.reserved.length := by rw [hlength, all, List.length_range']
    have hperm : u.reserved.Perm all := (hnodup.subperm hsubset).perm_of_length_le (Nat.le_of_eq hsame)
    refine List.eq_nil_iff_forall_not_mem.2 fun uid huid => ?_
    exact (mem_free.1 huid).2 (hperm.mem_iff.2 (mem_free.1 huid).1)

theorem reserve?_isSome (h : u.reserved.length < count) (draw : Nat) : (u.reserve? draw).isSome :=
  reserve?_isSome_iff.2 (free_ne_nil h)

end Proctor.Uids
