import Proctor.Heartbeat
import Proctor.Proofs.Admission
import Proctor.Proofs.RegistryLog
import Proctor.Proofs.WireForm

/-!
A heartbeat that arrives. What a host signs and sends is what the authority reads and verifies, though one
end signs the problem types before they are sorted and the other stamps the entry with its own clock.

Main statement: `heartbeat_arrives`, for every heartbeat and whatever the registry holds.
-/

namespace Proctor

namespace Registry

/-! ### Assignment -/

theorem totalCapacity_cons (hostname : String) (capacity : Nat) (rest : List (String × Nat)) :
    totalCapacity ((hostname, capacity) :: rest) = capacity + totalCapacity rest := by
  simp only [totalCapacity, ← List.sum_eq_foldl, List.map_cons, List.sum_cons]

/-- The draws of a host are as many as its capacity, so it is drawn when it has any. -/
theorem exists_pick?_iff {candidates : List (String × Nat)} {hostname : String} :
    (∃ draw < totalCapacity candidates, pick? candidates draw = some hostname) ↔
      ∃ capacity, 0 < capacity ∧ (hostname, capacity) ∈ candidates := by
  induction candidates with
  | nil => simp [pick?]
  | cons candidate rest ih =>
    obtain ⟨name, size⟩ := candidate
    rw [totalCapacity_cons]
    constructor
    · rintro ⟨draw, hdraw, hpick⟩
      rw [pick?] at hpick
      split at hpick
      · cases hpick
        exact ⟨size, by omega, .head _⟩
      · obtain ⟨capacity, hpos, hmem⟩ := ih.1 ⟨draw - size, by omega, hpick⟩
        exact ⟨capacity, hpos, .tail _ hmem⟩
    · rintro ⟨capacity, hpos, hmem⟩
      rcases List.mem_cons.1 hmem with heq | hmem
      · cases heq
        exact ⟨0, by omega, by rw [pick?, if_pos hpos]⟩
      · obtain ⟨draw, hdraw, hpick⟩ := ih.2 ⟨capacity, hpos, hmem⟩
        refine ⟨size + draw, by omega, ?_⟩
        rw [pick?, if_neg (by omega), Nat.add_sub_cancel_left, hpick]

theorem assign_eq_ok_iff {r : Registry} {problemType hostname : String} {draw : Nat} :
    r.assign problemType draw = .ok hostname ↔
      pick? (r.candidates problemType) draw = some hostname := by
  rw [assign]
  cases pick? (r.candidates problemType) draw <;> simp

theorem mem_candidates {r : Registry} {problemType hostname : String} {capacity : Nat} :
    (hostname, capacity) ∈ r.candidates problemType ↔ ∃ entry ∈ r.list,
      entry.hostname = hostname ∧ entry.capacity = capacity ∧ 0 < capacity ∧
        problemType ∈ entry.problemTypes := by
  simp only [candidates, List.mem_map, List.mem_filter, Bool.and_eq_true, decide_eq_true_eq,
    List.contains_iff_mem, Prod.mk.injEq]
  constructor
  · rintro ⟨entry, ⟨hmem, hpos, htype⟩, rfl, rfl⟩
    exact ⟨entry, hmem, rfl, rfl, hpos, htype⟩
  · rintro ⟨entry, hmem, rfl, rfl, hpos, htype⟩
    exact ⟨entry, ⟨hmem, hpos, htype⟩, rfl, rfl⟩

/-- Work of a type can go to a host exactly if its entry offers the type and has room. -/
theorem exists_assign_iff {r : Registry} {problemType hostname : String} :
    (∃ draw < totalCapacity (r.candidates problemType),
      r.assign problemType draw = .ok hostname) ↔
    ∃ entry ∈ r.list, entry.hostname = hostname ∧ 0 < entry.capacity ∧
      problemType ∈ entry.problemTypes := by
  simp only [assign_eq_ok_iff, exists_pick?_iff, mem_candidates]
  constructor
  · rintro ⟨capacity, hpos, entry, hmem, hhost, rfl, _, htype⟩
    exact ⟨entry, hmem, hhost, hpos, htype⟩
  · rintro ⟨entry, hmem, hhost, hpos, htype⟩
    exact ⟨entry.capacity, hpos, entry, hmem, hhost, rfl, hpos, htype⟩

theorem Holds.eq_of_hostname {secret : Bytes} {version : String} {calls : List Call} {r : Registry}
    {entry other : Registration} (h : Holds secret version calls r) (hentry : entry ∈ r.list)
    (hother : other ∈ r.list) (hhost : other.hostname = entry.hostname) : other = entry := by
  have hfind := (h.find? entry.hostname entry).2 ⟨rfl, h.mem_list.1 hentry⟩
  have hfind' := (h.find? entry.hostname other).2 ⟨hhost, h.mem_list.1 hother⟩
  exact Option.some.inj (hfind'.symm.trans hfind)

end Registry

/-! ### The way of a heartbeat -/

theorem Json.ofBytes?_encode (s : String) : ofBytes? (Utf8.encode s) = ofText? s := by
  rw [ofBytes?, Utf8.scan_encode, ofText?]

namespace Heartbeat

/-- What the authority reads is the registration that was sent, with the fraction of its time. -/
theorem ofBytes?_registration (h : Heartbeat) {sent : Instant}
    (hcapacity : h.capacity < Registration.capacityBound) (hsent : sent.Fits) :
    (Json.ofBytes? (Utf8.encode (h.registration sent).toJson.print)).bind Registration.ofJson? =
      some (h.registration sent) := by
  have hfits : (h.registration sent).Fits := ⟨hcapacity, hsent⟩
  rw [Json.ofBytes?_encode]
  exact Wire.decode?_print (Registration.writable_toJson _) (Registration.ofJson?_toJson hfits)

theorem accepts_registration (h : Heartbeat) {sent arrived : Instant}
    (hnear : (arrived.since sent).natAbs ≤ 60 * nanosPerSecond) :
    Registry.Accepts h.secret Registry.currentVersion (h.registration sent) arrived where
  signed := Registration.verify_sign _ h.secret
  version := rfl
  recent := Bundle.distance_le hnear

/-- A heartbeat of a host is kept in a registry that knows its secret and has a clock at most a minute off,
and from then on the host is drawn for the problem types that it offers and for no others. -/
theorem heartbeat_arrives (h : Heartbeat) (sent arrived : Instant) (steps : List Registry.Step)
    (hcapacity : h.capacity < Registration.capacityBound) (hsent : sent.Fits)
    (hnear : (arrived.since sent).natAbs ≤ 60 * nanosPerSecond) :
    let r := ({ secret := h.secret, version := Registry.currentVersion } : Registry).run steps
    ∃ registration entry r',
      (Json.ofBytes? (Utf8.encode (h.registration sent).toJson.print)).bind Registration.ofJson? =
        some registration ∧
      r.insert registration arrived = .ok (entry, r') ∧
      entry ∈ r'.list ∧ (∀ other ∈ r'.list, other.hostname = h.hostname → other = entry) ∧
      entry.hostname = h.hostname ∧
      entry.problemTypes.Perm h.problemTypes ∧ entry.problemTypes.Pairwise (· ≤ ·) ∧
      entry.capacity = h.capacity ∧ entry.time = arrived ∧
      ∀ problemType,
        (∃ draw < Registry.totalCapacity (r'.candidates problemType),
          r'.assign problemType draw = .ok h.hostname) ↔
        0 < h.capacity ∧ problemType ∈ h.problemTypes := by
  intro r
  let registration := h.registration sent
  let entry := Registry.entryOf registration arrived
  let r' : Registry := { r with hosts := r.hosts.insert registration.hostname entry }
  have haccepts : Registry.Accepts h.secret Registry.currentVersion registration arrived :=
    h.accepts_registration hnear
  have hholds := Registry.holds_run h.secret Registry.currentVersion steps
  have hinsert : r.insert registration arrived = .ok (entry, r') := by
    apply Registry.insert_of_accepts
    rw [hholds.secret_eq, hholds.version_eq]
    exact haccepts
  have hholds' := hholds.insert haccepts
  have hkeeps : Registry.Keeps registration arrived entry := Registry.keeps_iff.2 rfl
  have hentry : entry ∈ r'.list :=
    hholds'.mem_list.2 (Registry.stands_snoc.2 (.inl ⟨registration, arrived, rfl, haccepts, hkeeps⟩))
  have honly : ∀ other ∈ r'.list, other.hostname = h.hostname → other = entry :=
    fun other hother hhost => hholds'.eq_of_hostname hentry hother hhost
  refine ⟨registration, entry, r', h.ofBytes?_registration hcapacity hsent, hinsert, hentry, honly,
    hkeeps.hostname, hkeeps.problemTypes, hkeeps.ordered, hkeeps.capacity, hkeeps.time,
    fun problemType => ?_⟩
  have htypes : problemType ∈ entry.problemTypes ↔ problemType ∈ h.problemTypes :=
    hkeeps.problemTypes.mem_iff
  rw [Registry.exists_assign_iff, ← htypes]
  constructor
  · rintro ⟨other, hother, hhost, hpos, htype⟩
    rw [honly other hother hhost] at hpos htype
    exact ⟨hpos, htype⟩
  · rintro ⟨hpos, htype⟩
    exact ⟨entry, hentry, rfl, hpos, htype⟩

/-- A heartbeat with a problem type that is given twice arrives from a clock that is a minute behind. -/
theorem late_heartbeat_arrives :
    let h : Heartbeat :=
      { hostname := "daycare-1", problemTypes := ["python3", "nand", "python3"], capacity := 4,
        secret := [115] }
    let sent : Instant := ⟨30, 500000000, by decide, by decide⟩
    let arrived : Instant := ⟨90, 500000000, by decide, by decide⟩
    let steps := [Registry.Step.call (.expire sent)]
    ∃ registration entry r',
      (Json.ofBytes? (Utf8.encode (h.registration sent).toJson.print)).bind Registration.ofJson? =
        some registration ∧
      (({ secret := h.secret, version := Registry.currentVersion } : Registry).run steps).insert
        registration arrived = .ok (entry, r') ∧
      entry.problemTypes.Perm ["nand", "python3", "python3"] ∧ entry.time = arrived ∧
      (∃ draw < Registry.totalCapacity (r'.candidates "nand"), r'.assign "nand" draw = .ok "daycare-1") ∧
      ¬∃ draw < Registry.totalCapacity (r'.candidates "gotest"),
        r'.assign "gotest" draw = .ok "daycare-1" := by
  intro h sent arrived steps
  obtain ⟨registration, entry, r', hread, hinsert, -, -, -, hperm, -, -, htime, hassign⟩ :=
    h.heartbeat_arrives sent arrived steps (by decide) (by decide) (by decide)
  have horder : h.problemTypes.Perm ["nand", "python3", "python3"] := by decide
  refine ⟨registration, entry, r', hread, hinsert, hperm.trans horder, htime, ?_, ?_⟩
  · exact (hassign "nand").2 (by decide)
  · rw [hassign "gotest"]
    decide

end Heartbeat

end Proctor
