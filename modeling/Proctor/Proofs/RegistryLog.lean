import Mathlib.Data.List.Induction
import Proctor.Authority
import Proctor.Proofs.CanonicalText
import Proctor.Proofs.KeyMap
import Proctor.Proofs.Lists

/-!
What a registry holds, said of its log alone. Each step, over HTTP or not, clears out old entries, keeps a
registration or both; an entry stands as long as its registration has been neither replaced nor cleared out.

Main statement: `entries_of_log`, for every sequence of steps and whatever the clock shows.
-/

namespace Proctor

namespace Registration

theorem le_trans_text (a b c : String) (hab : decide (a ≤ b) = true) (hbc : decide (b ≤ c) = true) :
    decide (a ≤ c) = true :=
  decide_eq_true (String.le_trans (of_decide_eq_true hab) (of_decide_eq_true hbc))

theorem le_total_text (a b : String) : (decide (a ≤ b) || decide (b ≤ a)) = true := by
  simpa using String.le_total a b

theorem sorted_perm (problemTypes : List String) : (sorted problemTypes).Perm problemTypes :=
  List.mergeSort_perm ..

theorem sorted_pairwise (problemTypes : List String) : (sorted problemTypes).Pairwise (· ≤ ·) := by
  have h := List.pairwise_mergeSort le_trans_text le_total_text problemTypes
  exact h.imp of_decide_eq_true

/-- Some problem types have one order. -/
theorem eq_sorted_iff {l problemTypes : List String} :
    l = sorted problemTypes ↔ l.Perm problemTypes ∧ l.Pairwise (· ≤ ·) := by
  constructor
  · rintro rfl
    exact ⟨sorted_perm problemTypes, sorted_pairwise problemTypes⟩
  · rintro ⟨hperm, hpairwise⟩
    exact (hperm.trans (sorted_perm problemTypes).symm).eq_of_pairwise
      (fun _ _ _ _ => String.le_antisymm) hpairwise (sorted_pairwise problemTypes)

/-- A signature does not cover itself. -/
theorem verify_withSignature {registration : Registration} {secret : Bytes} {signature : String}
    (h : registration.signedFields.verify secret signature "registration" = .ok ()) :
    { registration with signature }.verify secret = .ok () := h

theorem verify_sign (registration : Registration) (secret : Bytes) :
    (registration.sign secret).verify secret = .ok () :=
  verify_withSignature (Signature.Fields.verify_sign registration.signedFields secret "registration")

end Registration

namespace Registry

/-! ### Steps and calls -/

/-- What the entries of a registry are asked for. -/
inductive Call
  | insert (registration : Registration) (now : Instant)
  | expire (now : Instant)
  deriving DecidableEq, Repr

/-- A registration that is refused changes nothing. -/
def call (r : Registry) : Call → Registry
  | .insert registration now =>
    match r.insert registration now with
    | .ok (_, r) => r
    | .error _ => r
  | .expire now => r.expire now

/-- What happens to a registry: a call, or a request over HTTP that is answered at a time. -/
inductive Step
  | call (call : Call)
  | request (detail : String) (method : Http.Method) (target : String) (body : Bytes) (now : Instant)

def step (r : Registry) : Step → Registry
  | .call c => r.call c
  | .request detail method target body now => (Authority.answer detail method target body now r).2

def run (r : Registry) (steps : List Step) : Registry :=
  steps.foldl step r

/-- The registration that a body describes, unless it is too large. -/
def posted? (body : Bytes) : Option Registration :=
  if Authority.bodyLimit < body.length then none else (Json.ofBytes? body).bind Registration.ofJson?

/-- Listing clears out first, and so does a registration that can be read. -/
def Step.calls : Step → List Call
  | .call c => [c]
  | .request _ method target body now =>
    if Http.path target ≠ Authority.path.toList then []
    else
      match method with
      | .get => [.expire now]
      | .head => [.expire now]
      | .post =>
        match posted? body with
        | some registration => [.expire now, .insert registration now]
        | none => []
      | .other => []

/-- Whether a registration is kept depends on the secret and the version of the registry only. -/
structure Accepts (secret : Bytes) (version : String) (registration : Registration) (now : Instant) :
    Prop where
  signed : registration.verify secret = .ok ()
  version : registration.version = version
  recent : Bundle.distance now registration.time ≤ 60

variable {r : Registry} {registration : Registration} {now : Instant}

theorem insert_of_accepts (h : Accepts r.secret r.version registration now) :
    r.insert registration now = .ok (entryOf registration now, { r with
      hosts := r.hosts.insert registration.hostname (entryOf registration now) }) := by
  have hrefusal : r.refusal? registration now = none := by
    have hrecent : ¬maxDrift < Bundle.distance now registration.time := Nat.not_lt.2 h.recent
    simp [refusal?, h.signed, h.version, hrecent]
  simp only [insert, hrefusal]
  rfl

/-- A registration is refused for its signature first, then for its version, then for its time. -/
theorem insert_of_not_accepts (h : ¬Accepts r.secret r.version registration now) :
    (∃ error, registration.verify r.secret = .error error ∧
      r.insert registration now = .error (.signature error)) ∨
    (registration.verify r.secret = .ok () ∧ registration.version ≠ r.version ∧
      r.insert registration now = .error (.version registration.version r.version)) ∨
    (registration.verify r.secret = .ok () ∧ registration.version = r.version ∧
      60 < Bundle.distance now registration.time ∧
      r.insert registration now = .error (.drift (Bundle.distance now registration.time))) := by
  cases hsigned : registration.verify r.secret with
  | error error => exact .inl ⟨error, rfl, by simp [insert, refusal?, hsigned]⟩
  | ok =>
    by_cases hversion : registration.version = r.version
    · have hlate : 60 < Bundle.distance now registration.time :=
        Nat.lt_of_not_le fun hrecent => h ⟨hsigned, hversion, hrecent⟩
      have hdrift : maxDrift < Bundle.distance now registration.time := hlate
      exact .inr (.inr ⟨rfl, hversion, hlate, by simp [insert, refusal?, hsigned, hversion, hdrift]⟩)
    · exact .inr (.inl ⟨rfl, hversion, by simp [insert, refusal?, hsigned, hversion]⟩)

theorem call_insert_of_accepts (h : Accepts r.secret r.version registration now) :
    r.call (.insert registration now) = { r with
      hosts := r.hosts.insert registration.hostname (entryOf registration now) } := by
  rw [call, insert_of_accepts h]

theorem call_insert_of_not_accepts (h : ¬Accepts r.secret r.version registration now) :
    r.call (.insert registration now) = r := by
  rw [call]
  rcases insert_of_not_accepts h with ⟨_, _, hinsert⟩ | ⟨_, _, hinsert⟩ | ⟨_, _, _, hinsert⟩ <;>
    rw [hinsert]

/-- A step makes its calls and does nothing else. -/
theorem step_eq (r : Registry) (step : Step) : r.step step = step.calls.foldl call r := by
  cases step with
  | call c => rfl
  | request detail method target body now =>
    simp only [Registry.step, Authority.answer, Step.calls]
    split
    · rfl
    · cases method with
      | get | head | other => rfl
      | post =>
        simp only [Authority.register, posted?]
        by_cases hlarge : Authority.bodyLimit < body.length
        · rw [if_pos hlarge, if_pos hlarge]
          rfl
        · rw [if_neg hlarge, if_neg hlarge]
          cases (Json.ofBytes? body).bind Registration.ofJson? with
          | none => rfl
          | some registration =>
            simp only [List.foldl_cons, List.foldl_nil, call]
            cases (r.expire now).insert registration now with
            | error error => rfl
            | ok entry => rfl

theorem run_eq (r : Registry) (steps : List Step) :
    r.run steps = (steps.flatMap Step.calls).foldl call r := by
  induction steps generalizing r with
  | nil => rfl
  | cons step steps ih =>
    rw [List.flatMap_cons, List.foldl_append, ← step_eq]
    exact ih (r.step step)

/-! ### Entries that stand -/

/-- An entry is the registration that arrived at a time, stamped with that time and with its types in order. -/
structure Keeps (registration : Registration) (time : Instant) (entry : Registration) : Prop where
  hostname : entry.hostname = registration.hostname
  problemTypes : entry.problemTypes.Perm registration.problemTypes
  ordered : entry.problemTypes.Pairwise (· ≤ ·)
  capacity : entry.capacity = registration.capacity
  time : entry.time = time
  version : entry.version = ""
  signature : entry.signature = ""

theorem keeps_iff {time : Instant} {entry : Registration} :
    Keeps registration time entry ↔ entry = entryOf registration time := by
  constructor
  · intro h
    obtain ⟨hostname, problemTypes, capacity, time, version, signature⟩ := entry
    obtain ⟨rfl, hperm, hordered, rfl, rfl, rfl, rfl⟩ := h
    have htypes := Registration.eq_sorted_iff.2 ⟨hperm, hordered⟩
    simp only at htypes
    rw [htypes]
    rfl
  · rintro rfl
    exact ⟨rfl, Registration.sorted_perm _, Registration.sorted_pairwise _, rfl, rfl, rfl, rfl⟩

/-- A call leaves an entry alone unless it keeps another registration of the host or clears the entry out, as
it does more than two minutes after the entry was made. -/
def Call.Spares (secret : Bytes) (version : String) (entry : Registration) : Call → Prop
  | .insert later now => later.hostname = entry.hostname → ¬Accepts secret version later now
  | .expire now => now.since entry.time ≤ 120 * (nanosPerSecond : Int)

/-- An entry that stands after some calls: its registration was accepted, and every call since spared it. -/
def Stands (secret : Bytes) (version : String) (calls : List Call) (entry : Registration) : Prop :=
  ∃ before registration time after, calls = before ++ .insert registration time :: after ∧
    Accepts secret version registration time ∧ Keeps registration time entry ∧
    ∀ c ∈ after, c.Spares secret version entry

variable {secret : Bytes} {version : String} {calls : List Call} {entry : Registration}

/-- What stands after one more call is what it makes and what it spares. -/
theorem stands_snoc {c : Call} :
    Stands secret version (calls ++ [c]) entry ↔
      (∃ registration time, c = .insert registration time ∧ Accepts secret version registration time ∧
        Keeps registration time entry) ∨
      (Stands secret version calls entry ∧ c.Spares secret version entry) := by
  constructor
  · rintro ⟨before, registration, time, after, hcalls, haccepts, hkeeps, hspares⟩
    rcases snoc_eq_iff.1 hcalls with ⟨rfl, rfl, rfl⟩ | ⟨rest, rfl, rfl⟩
    · exact .inl ⟨registration, time, rfl, haccepts, hkeeps⟩
    · exact .inr ⟨⟨before, registration, time, rest, rfl, haccepts, hkeeps,
        fun d hd => hspares d (List.mem_append_left _ hd)⟩, hspares c (by simp)⟩
  · rintro (⟨registration, time, rfl, haccepts, hkeeps⟩ |
      ⟨⟨before, registration, time, after, rfl, haccepts, hkeeps, hspares⟩, hc⟩)
    · exact ⟨calls, registration, time, [], rfl, haccepts, hkeeps, by simp⟩
    · refine ⟨before, registration, time, after ++ [c], by simp, haccepts, hkeeps, fun d hd => ?_⟩
      rcases List.mem_append.1 hd with hd | hd
      · exact hspares d hd
      · exact List.mem_singleton.1 hd ▸ hc

theorem not_stands_nil : ¬Stands secret version [] entry := by
  rintro ⟨before, _, _, _, hcalls, _⟩
  simp at hcalls

/-! ### Registries and their log -/

/-- A registry that was made by some calls: it holds what stands after them, by host. -/
structure Holds (secret : Bytes) (version : String) (calls : List Call) (r : Registry) : Prop where
  secret_eq : r.secret = secret
  version_eq : r.version = version
  find? : ∀ hostname entry, r.hosts.find? hostname = some entry ↔
    entry.hostname = hostname ∧ Stands secret version calls entry

theorem holds_nil : Holds secret version [] { secret, version } := by
  refine ⟨rfl, rfl, fun hostname entry => ?_⟩
  simp [not_stands_nil]

theorem Holds.expire (h : Holds secret version calls r) (now : Instant) :
    Holds secret version (calls ++ [.expire now]) (r.expire now) := by
  refine ⟨h.secret_eq, h.version_eq, fun hostname entry => ?_⟩
  have hfind : (r.expire now).hosts.find? hostname = some entry ↔
      r.hosts.find? hostname = some entry ∧ now.since entry.time ≤ lifetime := by
    simp [Registry.expire, KeyMap.find?_filter, Option.filter_eq_some_iff]
  have hstands : Stands secret version (calls ++ [.expire now]) entry ↔
      Stands secret version calls entry ∧ now.since entry.time ≤ lifetime := by
    simp [stands_snoc, Call.Spares, lifetime]
  rw [hfind, hstands, h.find?, and_assoc]

theorem Holds.insert (h : Holds secret version calls r) (haccepts : Accepts secret version registration now) :
    Holds secret version (calls ++ [.insert registration now]) { r with
      hosts := r.hosts.insert registration.hostname (entryOf registration now) } := by
  refine ⟨h.secret_eq, h.version_eq, fun hostname entry => ?_⟩
  have hstands : Stands secret version (calls ++ [.insert registration now]) entry ↔
      entry = entryOf registration now ∨
        (Stands secret version calls entry ∧ registration.hostname ≠ entry.hostname) := by
    rw [stands_snoc, ← keeps_iff]
    simp [Call.Spares, haccepts]
  rw [KeyMap.find?_insert, hstands]
  by_cases hhost : hostname = registration.hostname
  · subst hhost
    rw [if_pos rfl]
    constructor
    · intro he
      cases he
      exact ⟨rfl, .inl rfl⟩
    · rintro ⟨hhost, he | ⟨_, hother⟩⟩
      · rw [he]
      · exact absurd hhost.symm hother
  · rw [if_neg hhost, h.find?]
    constructor
    · rintro ⟨rfl, hold⟩
      exact ⟨rfl, .inr ⟨hold, Ne.symm hhost⟩⟩
    · rintro ⟨rfl, rfl | ⟨hold, _⟩⟩
      · exact absurd rfl hhost
      · exact ⟨rfl, hold⟩

theorem Holds.refuse (h : Holds secret version calls r)
    (hrefused : ¬Accepts secret version registration now) :
    Holds secret version (calls ++ [.insert registration now]) r := by
  refine ⟨h.secret_eq, h.version_eq, fun hostname entry => ?_⟩
  have hstands : Stands secret version (calls ++ [.insert registration now]) entry ↔
      Stands secret version calls entry := by
    simp [stands_snoc, Call.Spares, hrefused]
  rw [hstands, h.find?]

theorem Holds.call (h : Holds secret version calls r) (c : Call) :
    Holds secret version (calls ++ [c]) (r.call c) := by
  cases c with
  | expire now => exact h.expire now
  | insert registration now =>
    by_cases haccepts : Accepts secret version registration now
    · rw [call_insert_of_accepts (by rwa [h.secret_eq, h.version_eq])]
      exact h.insert haccepts
    · rw [call_insert_of_not_accepts (by rwa [h.secret_eq, h.version_eq])]
      exact h.refuse haccepts

theorem holds_calls (secret : Bytes) (version : String) (calls : List Call) :
    Holds secret version calls (calls.foldl call { secret, version }) := by
  induction calls using List.reverseRecOn with
  | nil => exact holds_nil
  | append_singleton calls c ih =>
    rw [List.foldl_append]
    exact ih.call c

theorem holds_run (secret : Bytes) (version : String) (steps : List Step) :
    Holds secret version (steps.flatMap Step.calls) (({ secret, version } : Registry).run steps) := by
  rw [run_eq]
  exact holds_calls secret version (steps.flatMap Step.calls)

theorem Holds.mem_list (h : Holds secret version calls r) :
    entry ∈ r.list ↔ Stands secret version calls entry := by
  rw [list, KeyMap.values, List.mem_map]
  constructor
  · rintro ⟨⟨hostname, _⟩, hmem, rfl⟩
    exact ((h.find? _ _).1 (KeyMap.mem_entries.1 hmem)).2
  · intro hstands
    exact ⟨(entry.hostname, entry), KeyMap.mem_entries.2 ((h.find? _ _).2 ⟨rfl, hstands⟩), rfl⟩

/-- A host has its own name as its key, so the entries are in the order of the hosts. -/
theorem Holds.list_sorted (h : Holds secret version calls r) : r.list.Pairwise (·.hostname < ·.hostname) := by
  have hkey (p : String × Registration) (hp : p ∈ r.hosts.entries) : p.2.hostname = p.1 :=
    ((h.find? _ _).1 (KeyMap.mem_entries.1 hp)).1
  rw [list, KeyMap.values, List.pairwise_map]
  refine r.hosts.sorted.imp_of_mem fun {p q} hp hq hlt => ?_
  rw [hkey p hp, hkey q hq]
  exact hlt

theorem list_expire (r : Registry) (now : Instant) :
    (r.expire now).list =
      r.list.filter fun entry => now.since entry.time ≤ 120 * (nanosPerSecond : Int) := by
  rw [list, list, KeyMap.values, KeyMap.values, List.filter_map]
  rfl

/-- A post that is not answered with success clears out old entries at most. -/
theorem answer_of_refused {detail target : String} {body : Bytes}
    (h : (Authority.answer detail .post target body now r).1.status ≠ 200) :
    (Authority.answer detail .post target body now r).2 = r ∨
      (Authority.answer detail .post target body now r).2 = r.expire now := by
  simp only [Authority.answer] at h ⊢
  split
  · exact .inl rfl
  · rename_i hpath
    rw [if_neg hpath] at h
    simp only [Authority.register] at h ⊢
    split
    · exact .inl rfl
    · rename_i hsmall
      rw [if_neg hsmall] at h
      cases hread : (Json.ofBytes? body).bind Registration.ofJson? with
      | none => exact .inl rfl
      | some registration =>
        simp only [hread] at h ⊢
        cases hinsert : (r.expire now).insert registration now with
        | error error => exact .inr rfl
        | ok entry => simp [hinsert] at h

/-- A registry holds what its log says, in the order of the hosts: each host has the entry of its last
registration that was accepted, until that is cleared out. A registration that is refused, for its signature,
its version or its time in this order, changes no entry, and a post that is refused removes old ones at most. -/
theorem entries_of_log (secret : Bytes) (version : String) (steps : List Step) :
    let r := ({ secret, version } : Registry).run steps
    r.list.Pairwise (·.hostname < ·.hostname) ∧
    (∀ entry, entry ∈ r.list ↔ Stands secret version (steps.flatMap Step.calls) entry) ∧
    (∀ registration now,
      (Accepts secret version registration now ∧ ∃ entry, Keeps registration now entry ∧
        r.insert registration now = .ok (entry, r.call (.insert registration now))) ∨
      (((∃ error, registration.verify secret = .error error ∧
          r.insert registration now = .error (.signature error)) ∨
        (registration.verify secret = .ok () ∧ registration.version ≠ version ∧
          r.insert registration now = .error (.version registration.version version)) ∨
        (registration.verify secret = .ok () ∧ registration.version = version ∧
          60 < Bundle.distance now registration.time ∧
          r.insert registration now = .error (.drift (Bundle.distance now registration.time)))) ∧
        r.call (.insert registration now) = r)) ∧
    ∀ detail target body now, (Authority.answer detail .post target body now r).1.status ≠ 200 →
      let r' := (Authority.answer detail .post target body now r).2
      r' = r ∨ (r' = r.expire now ∧
        r'.list = r.list.filter fun entry => now.since entry.time ≤ 120 * (nanosPerSecond : Int)) := by
  intro r
  have hholds : Holds secret version (steps.flatMap Step.calls) r := holds_run secret version steps
  refine ⟨hholds.list_sorted, fun entry => hholds.mem_list, fun registration now => ?_, ?_⟩
  · rw [← hholds.secret_eq, ← hholds.version_eq]
    by_cases haccepts : Accepts r.secret r.version registration now
    · refine .inl ⟨haccepts, entryOf registration now, keeps_iff.2 rfl, ?_⟩
      rw [insert_of_accepts haccepts, call_insert_of_accepts haccepts]
    · exact .inr ⟨insert_of_not_accepts haccepts, call_insert_of_not_accepts haccepts⟩
  · intro detail target body now hstatus r'
    rcases answer_of_refused hstatus with hsame | hexpired
    · exact .inl hsame
    · refine .inr ⟨hexpired, ?_⟩
      rw [show r' = r.expire now from hexpired, list_expire]

/-- A registration stands when the clock shows two minutes more, and is gone a second later. -/
theorem entry_of_two_minutes :
    ∃ registration : Registration,
      let heard := Step.call (.insert registration (.ofSeconds 0))
      let r : Registry := { secret := [1], version := currentVersion }
      (∃ entry ∈ (r.run [heard, .call (.expire (.ofSeconds 120))]).list,
        Keeps registration (.ofSeconds 0) entry) ∧
      ∀ entry, entry ∉ (r.run [heard, .call (.expire (.ofSeconds 121))]).list := by
  obtain ⟨registration, haccepts⟩ : ∃ registration,
      Accepts [1] currentVersion registration (.ofSeconds 0) := by
    let unsigned : Registration :=
      { hostname := "daycare-1", problemTypes := ["python3", "nand"], capacity := 4, time := .ofSeconds 0,
        version := currentVersion }
    have hrecent : Bundle.distance (.ofSeconds 0) unsigned.time ≤ 60 := by decide
    exact ⟨unsigned.sign [1], unsigned.verify_sign [1], rfl, hrecent⟩
  have hmem (clock : Instant) (entry : Registration) :
      entry ∈ (({ secret := [1], version := currentVersion } : Registry).run
        [.call (.insert registration (.ofSeconds 0)), .call (.expire clock)]).list ↔
      Stands [1] currentVersion ([] ++ [.insert registration (.ofSeconds 0)] ++ [.expire clock]) entry :=
    (entries_of_log [1] currentVersion
      [.call (.insert registration (.ofSeconds 0)), .call (.expire clock)]).2.1 entry
  have hkeeps : Keeps registration (.ofSeconds 0) (entryOf registration (.ofSeconds 0)) := keeps_iff.2 rfl
  refine ⟨registration, ⟨_, ?_, hkeeps⟩, fun entry hkept => ?_⟩
  · rw [hmem, stands_snoc, stands_snoc]
    have hspares : (Instant.ofSeconds 120).since (.ofSeconds 0) ≤ 120 * (nanosPerSecond : Int) := by decide
    exact .inr ⟨.inl ⟨registration, _, rfl, haccepts, hkeeps⟩, hspares⟩
  · rw [hmem, stands_snoc, stands_snoc] at hkept
    rcases hkept with ⟨_, _, hcall, _⟩ | ⟨⟨_, _, hcall, _, hkeeps⟩ | ⟨hstands, _⟩, hspared⟩
    · cases hcall
    · cases hcall
      rw [Call.Spares, hkeeps.time] at hspared
      exact absurd hspared (by decide)
    · exact not_stands_nil hstands

end Registry

end Proctor
