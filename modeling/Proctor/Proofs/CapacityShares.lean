import Proctor.Proofs.HeartbeatArrival

/-!
How much work each host is given. Of all draws below the total capacity for a problem type, a host takes
exactly as many as its capacity if it lists the type and none otherwise; neither the order in which the hosts
have registered nor the order in which a table yields them makes a difference.

Main statement: `draws_are_capacities`, for every registry that some steps lead to.
-/

namespace Proctor

namespace Registry

/-! ### Draws from a list of candidates -/

theorem pick?_eq_none_iff {candidates : List (String × Nat)} {draw : Nat} :
    pick? candidates draw = none ↔ totalCapacity candidates ≤ draw := by
  induction candidates generalizing draw with
  | nil => simp [pick?, totalCapacity]
  | cons candidate rest ih =>
    obtain ⟨name, size⟩ := candidate
    rw [pick?, totalCapacity_cons]
    split
    · simp
      omega
    · rw [ih]
      omega

theorem mem_of_pick? {candidates : List (String × Nat)} {draw : Nat} {hostname : String}
    (h : pick? candidates draw = some hostname) : ∃ capacity, (hostname, capacity) ∈ candidates := by
  induction candidates generalizing draw with
  | nil => simp [pick?] at h
  | cons candidate rest ih =>
    rw [pick?] at h
    split at h
    · cases h
      exact ⟨_, .head _⟩
    · obtain ⟨capacity, hmem⟩ := ih h
      exact ⟨capacity, .tail _ hmem⟩

theorem countP_range_add (p : Nat → Bool) (m n : Nat) :
    (List.range (m + n)).countP p =
      (List.range m).countP p + (List.range n).countP fun i => p (m + i) := by
  rw [List.range_add, List.countP_append, List.countP_map]
  rfl

/-- The draws of a host are as many as the capacities that stand beside its name. -/
theorem countP_pick? (candidates : List (String × Nat)) (hostname : String) :
    (List.range (totalCapacity candidates)).countP (pick? candidates · = some hostname) =
      ((candidates.filter (·.1 = hostname)).map (·.2)).sum := by
  induction candidates with
  | nil => rfl
  | cons candidate rest ih =>
    obtain ⟨name, size⟩ := candidate
    -- the draws of the first candidate come first, those of the others follow
    have hfirst : (List.range size).countP (pick? ((name, size) :: rest) · = some hostname) =
        if name = hostname then size else 0 := by
      have hpick : ∀ draw ∈ List.range size, pick? ((name, size) :: rest) draw = some name :=
        fun draw hdraw => by rw [pick?, if_pos (List.mem_range.1 hdraw)]
      split
      · rename_i hname
        rw [List.countP_eq_length.2, List.length_range]
        intro draw hdraw
        simpa [hname] using hpick draw hdraw
      · rename_i hname
        rw [List.countP_eq_zero]
        intro draw hdraw
        simpa [hpick draw hdraw] using hname
    have hothers (draw : Nat) : pick? ((name, size) :: rest) (size + draw) = pick? rest draw := by
      rw [pick?, if_neg (by omega), Nat.add_sub_cancel_left]
    rw [totalCapacity_cons, countP_range_add, hfirst]
    simp only [hothers, ih, List.filter_cons]
    by_cases hname : name = hostname <;> simp [hname]

/-! ### Hosts that list a type -/

/-- The registrations that list a problem type, also those without capacity. -/
def offering (r : Registry) (problemType : String) : List Registration :=
  r.list.filter (problemType ∈ ·.problemTypes)

theorem sum_filter_pos (l : List Registration) :
    ((l.filter (0 < ·.capacity)).map (·.capacity)).sum = (l.map (·.capacity)).sum := by
  induction l with
  | nil => rfl
  | cons entry l ih =>
    rw [List.filter_cons]
    split
    · simp [ih]
    · rename_i hnone
      have hzero : entry.capacity = 0 := by simpa using hnone
      simp [ih, hzero]

variable {r : Registry} {problemType : String}

theorem candidates_eq : r.candidates problemType =
    ((r.offering problemType).filter (0 < ·.capacity)).map fun entry =>
      (entry.hostname, entry.capacity) := by
  simp only [candidates, offering, List.filter_filter, List.contains_eq_mem]

theorem totalCapacity_candidates :
    totalCapacity (r.candidates problemType) = ((r.offering problemType).map (·.capacity)).sum := by
  rw [candidates_eq, ← sum_filter_pos, totalCapacity, ← List.sum_eq_foldl, List.map_map]
  rfl

theorem sum_candidates (hostname : String) :
    (((r.candidates problemType).filter (·.1 = hostname)).map (·.2)).sum =
      (((r.offering problemType).filter (·.hostname = hostname)).map (·.capacity)).sum := by
  rw [candidates_eq, List.filter_map, List.map_map, ← sum_filter_pos (List.filter _ (r.offering _)),
    List.filter_comm]
  rfl

/-- The draws below the total that go to a host. -/
def draws (r : Registry) (problemType hostname : String) : Nat :=
  (List.range ((r.offering problemType).map (·.capacity)).sum).countP
    (r.assign problemType · = .ok hostname)

theorem draws_eq (r : Registry) (problemType hostname : String) :
    r.draws problemType hostname =
      (((r.offering problemType).filter (·.hostname = hostname)).map (·.capacity)).sum := by
  rw [draws, ← totalCapacity_candidates]
  simp only [assign_eq_ok_iff]
  rw [countP_pick?, sum_candidates]

theorem assign_eq_error {draw : Nat} (h : ((r.offering problemType).map (·.capacity)).sum ≤ draw) :
    r.assign problemType draw = .error (.noHost problemType) := by
  rw [← totalCapacity_candidates] at h
  rw [assign, pick?_eq_none_iff.2 h]

theorem exists_assign {draw : Nat} (h : draw < ((r.offering problemType).map (·.capacity)).sum) :
    ∃ entry ∈ r.offering problemType, r.assign problemType draw = .ok entry.hostname := by
  rw [← totalCapacity_candidates, ← Nat.not_le, ← pick?_eq_none_iff] at h
  obtain ⟨hostname, hpick⟩ := Option.ne_none_iff_exists'.1 h
  obtain ⟨capacity, hmem⟩ := mem_of_pick? hpick
  obtain ⟨entry, hentry, rfl, -, -, htype⟩ := mem_candidates.1 hmem
  exact ⟨entry, List.mem_filter.2 ⟨hentry, decide_eq_true htype⟩, assign_eq_ok_iff.2 hpick⟩

/-! ### One entry for each host -/

section

variable {secret : Bytes} {version : String} {calls : List Call} {entry : Registration}

theorem Holds.list_nodup (h : Holds secret version calls r) : r.list.Nodup := by
  refine h.list_sorted.imp fun {a b} hlt => ?_
  rintro rfl
  exact String.lt_irrefl _ hlt

theorem Holds.filter_hostname (h : Holds secret version calls r) (hentry : entry ∈ r.list) :
    r.list.filter (·.hostname = entry.hostname) = [entry] := by
  have hsame : ∀ other ∈ r.list, decide (other.hostname = entry.hostname) = (other == entry) := by
    intro other hother
    rw [Bool.eq_iff_iff, decide_eq_true_eq, beq_iff_eq]
    exact ⟨h.eq_of_hostname hentry hother, fun heq => heq ▸ rfl⟩
  rw [List.filter_congr hsame, List.filter_beq, List.count_eq_one_of_mem h.list_nodup hentry,
    List.replicate_one]

theorem Holds.draws_of_mem (h : Holds secret version calls r) (hentry : entry ∈ r.list) :
    r.draws problemType entry.hostname =
      if problemType ∈ entry.problemTypes then entry.capacity else 0 := by
  rw [draws_eq, offering, List.filter_comm, h.filter_hostname hentry]
  by_cases htype : problemType ∈ entry.problemTypes <;> simp [htype]

theorem draws_of_not_mem {hostname : String} (h : ∀ entry ∈ r.list, entry.hostname ≠ hostname) :
    r.draws problemType hostname = 0 := by
  have hnone : (r.offering problemType).filter (·.hostname = hostname) = [] := by
    rw [List.filter_eq_nil_iff]
    intro entry hentry
    simpa using h entry (List.mem_filter.1 hentry).1
  rw [draws_eq, hnone, List.map_nil, List.sum_nil]

/-! ### The order of the entries -/

/-- The candidates among entries that come in any order, as those of a hash table do, put in the order of
their names. -/
def gathered (entries : List Registration) (problemType : String) : List (String × Nat) :=
  let candidates := entries.filter fun entry =>
    0 < entry.capacity && entry.problemTypes.contains problemType
  (candidates.mergeSort fun a b => a.hostname ≤ b.hostname).map fun entry =>
    (entry.hostname, entry.capacity)

theorem Holds.gathered_eq (h : Holds secret version calls r) {entries : List Registration}
    (hperm : entries.Perm r.list) : gathered entries problemType = r.candidates problemType := by
  let qualifies (entry : Registration) : Bool :=
    0 < entry.capacity && entry.problemTypes.contains problemType
  have hsort : (entries.filter qualifies).mergeSort (fun a b => a.hostname ≤ b.hostname) =
      r.list.filter qualifies := by
    have hsame := (List.mergeSort_perm (entries.filter qualifies) fun a b => a.hostname ≤ b.hostname).trans
      (hperm.filter qualifies)
    have hsorted : ((entries.filter qualifies).mergeSort fun a b => a.hostname ≤ b.hostname).Pairwise
        fun a b => decide (a.hostname ≤ b.hostname) = true :=
      @List.pairwise_mergeSort Registration (fun a b => a.hostname ≤ b.hostname)
        (fun a b c => Registration.le_trans_text a.hostname b.hostname c.hostname)
        (fun a b => Registration.le_total_text a.hostname b.hostname) (entries.filter qualifies)
    have hkept : (r.list.filter qualifies).Pairwise fun a b => decide (a.hostname ≤ b.hostname) = true :=
      (h.list_sorted.filter qualifies).imp fun hlt =>
        decide_eq_true (String.not_lt.1 fun hgt => String.lt_irrefl _ (String.lt_trans hlt hgt))
    refine hsame.eq_of_pairwise (fun a b ha hb hab hba => ?_) hsorted hkept
    have hmem := List.mem_of_mem_filter (hsame.mem_iff.1 ha)
    exact h.eq_of_hostname (List.mem_of_mem_filter hb) hmem
      (String.le_antisymm (of_decide_eq_true hab) (of_decide_eq_true hba))
  exact congrArg (List.map fun entry => (entry.hostname, entry.capacity)) hsort

theorem Holds.candidates_sorted (h : Holds secret version calls r) :
    (r.candidates problemType).Pairwise (·.1 < ·.1) := by
  rw [candidates, List.pairwise_map]
  exact h.list_sorted.filter _

theorem mem_candidates_iff_offering {hostname : String} {capacity : Nat} :
    (hostname, capacity) ∈ r.candidates problemType ↔
      0 < capacity ∧ ∃ entry ∈ r.offering problemType,
        entry.hostname = hostname ∧ entry.capacity = capacity := by
  simp only [candidates_eq, List.mem_map, List.mem_filter, decide_eq_true_eq, Prod.mk.injEq]
  constructor
  · rintro ⟨entry, ⟨hentry, hpos⟩, rfl, rfl⟩
    exact ⟨hpos, entry, hentry, rfl, rfl⟩
  · rintro ⟨hpos, entry, hentry, rfl, rfl⟩
    exact ⟨entry, ⟨hentry, hpos⟩, rfl, rfl⟩

/-- Registries in which the same hosts list a type with the same capacities have the same candidates. -/
theorem Holds.candidates_ext {r' : Registry} {secret' : Bytes} {version' : String} {calls' : List Call}
    (h : Holds secret version calls r) (h' : Holds secret' version' calls' r')
    (hsame : ∀ hostname capacity,
      (∃ entry ∈ r'.offering problemType, entry.hostname = hostname ∧ entry.capacity = capacity) ↔
        ∃ entry ∈ r.offering problemType, entry.hostname = hostname ∧ entry.capacity = capacity) :
    r'.candidates problemType = r.candidates problemType := by
  refine KeyMap.sorted_ext h'.candidates_sorted h.candidates_sorted fun (hostname, capacity) => ?_
  rw [mem_candidates_iff_offering, mem_candidates_iff_offering, hsame]

end

/-! ### Shares -/

/-- Two registrations that are accepted are kept in the order of their hosts. -/
theorem list_of_two {secret : Bytes} {version : String} {first second : Registration} {time time' : Instant}
    (hfirst : Accepts secret version first time) (hsecond : Accepts secret version second time')
    (horder : first.hostname < second.hostname) :
    (({ secret, version } : Registry).run [.call (.insert first time), .call (.insert second time')]).list =
      [entryOf first time, entryOf second time'] := by
  have hafter : ¬second.hostname < first.hostname := fun h =>
    String.lt_irrefl _ (String.lt_trans horder h)
  have hother : second.hostname ≠ first.hostname := fun h => String.lt_irrefl _ (h ▸ horder)
  let hosts : KeyMap Registration := KeyMap.empty.insert first.hostname (entryOf first time)
  have hone : ({ secret, version } : Registry).call (.insert first time) = { secret, version, hosts } :=
    call_insert_of_accepts (r := { secret, version }) hfirst
  have htwo := call_insert_of_accepts (r := { secret, version, hosts }) hsecond
  simp only [run, List.foldl_cons, List.foldl_nil, step, hone, htwo]
  simp [list, hosts, KeyMap.values, KeyMap.insert, KeyMap.insertPair, KeyMap.empty, hafter, hother]

/-- Work of a type is assigned in the exact proportion of the capacities. If no host has room for it there is
none to assign it to; otherwise each draw below the total is that of a host that lists the type, and a host
has as many of these draws as its capacity if it lists the type, none if it does not. A table that yields its
entries in another order makes no difference, and neither do steps that lead to the same hosts. -/
theorem draws_are_capacities (secret : Bytes) (version : String) (steps : List Step) (problemType : String) :
    let r := ({ secret, version } : Registry).run steps
    let total := ((r.offering problemType).map (·.capacity)).sum
    (total = 0 → ∀ draw, r.assign problemType draw = .error (.noHost problemType)) ∧
    (∀ draw < total, ∃ entry ∈ r.offering problemType,
      r.assign problemType draw = .ok entry.hostname) ∧
    (∀ entry ∈ r.list, r.draws problemType entry.hostname =
      if problemType ∈ entry.problemTypes then entry.capacity else 0) ∧
    (∀ hostname, (∀ entry ∈ r.list, entry.hostname ≠ hostname) → r.draws problemType hostname = 0) ∧
    (∀ entries : List Registration, entries.Perm r.list →
      gathered entries problemType = r.candidates problemType) ∧
    ∀ secret' version' steps',
      let r' := ({ secret := secret', version := version' } : Registry).run steps'
      (∀ hostname capacity,
        (∃ entry ∈ r'.offering problemType, entry.hostname = hostname ∧ entry.capacity = capacity) ↔
          ∃ entry ∈ r.offering problemType, entry.hostname = hostname ∧ entry.capacity = capacity) →
      ∀ draw, r'.assign problemType draw = r.assign problemType draw := by
  intro r total
  have hholds : Holds secret version (steps.flatMap Step.calls) r := holds_run secret version steps
  refine ⟨fun hnone draw => assign_eq_error (hnone.trans_le (Nat.zero_le draw)),
    fun draw hdraw => exists_assign hdraw, fun entry hentry => hholds.draws_of_mem hentry,
    fun hostname hother => draws_of_not_mem hother, fun entries hperm => hholds.gathered_eq hperm, ?_⟩
  intro secret' version' steps' r' hsame draw
  rw [assign, assign, hholds.candidates_ext (holds_run secret' version' steps') hsame]

/-- A host that lists the type twice has as many draws as its capacity, beside one with a single draw. -/
theorem draws_of_big_and_small :
    let big : Registration :=
      { hostname := "big", problemTypes := ["gotest", "gotest"], capacity := 9, time := .ofSeconds 0,
        version := currentVersion }
    let small : Registration :=
      { hostname := "small", problemTypes := ["nand", "gotest"], capacity := 1, time := .ofSeconds 0,
        version := currentVersion }
    let steps : List Step :=
      [.call (.insert (big.sign [115]) (.ofSeconds 30)), .call (.insert (small.sign [115]) (.ofSeconds 40))]
    let r := ({ secret := [115], version := currentVersion } : Registry).run steps
    r.draws "gotest" "big" = 9 ∧ r.draws "gotest" "small" = 1 ∧ r.draws "gotest" "idle" = 0 := by
  intro big small steps r
  have hbig : Accepts [115] currentVersion (big.sign [115]) (.ofSeconds 30) :=
    ⟨big.verify_sign [115], rfl, by decide⟩
  have hsmall : Accepts [115] currentVersion (small.sign [115]) (.ofSeconds 40) :=
    ⟨small.verify_sign [115], rfl, by decide⟩
  let bigEntry := entryOf (big.sign [115]) (.ofSeconds 30)
  let smallEntry := entryOf (small.sign [115]) (.ofSeconds 40)
  have hlist : r.list = [bigEntry, smallEntry] := list_of_two hbig hsmall (by decide)
  have hbigType : "gotest" ∈ bigEntry.problemTypes :=
    (Registration.sorted_perm big.problemTypes).mem_iff.2 (by decide)
  have hsmallType : "gotest" ∈ smallEntry.problemTypes :=
    (Registration.sorted_perm small.problemTypes).mem_iff.2 (by decide)
  obtain ⟨-, -, hshares, hothers, -⟩ := draws_are_capacities [115] currentVersion steps "gotest"
  have hbigShare := hshares bigEntry (by rw [hlist]; exact .head _)
  have hsmallShare := hshares smallEntry (by rw [hlist]; exact .tail _ (.head _))
  rw [if_pos hbigType] at hbigShare
  rw [if_pos hsmallType] at hsmallShare
  refine ⟨hbigShare, hsmallShare, hothers "idle" fun entry hentry => ?_⟩
  rw [hlist, List.mem_cons, List.mem_singleton] at hentry
  rcases hentry with rfl | rfl
  · exact show "big" ≠ "idle" by decide
  · exact show "small" ≠ "idle" by decide

end Registry

end Proctor
