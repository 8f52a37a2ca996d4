import Proctor.Proofs.AdmissionOrder
import Proctor.Proofs.RegistryLog
import Proctor.Proofs.ReturnedBundle

/-!
How far two clocks may be apart. The three checks of a time count the whole seconds in between and drop the
rest, so each of them refuses from one second after its limit on, whichever clock is ahead, and not before.

Main statement: `time_windows`.
-/

namespace Proctor

/-! ### The time between two clocks -/

namespace Instant

theorem leapsBetween_swap (a b : Instant) : b.leapsBetween a = -a.leapsBetween b := by
  simp only [leapsBetween]
  split_ifs <;> omega

theorem since_swap (a b : Instant) : b.since a = -a.since b := by
  simp only [since, leapsBetween_swap a b, nanosPerSecond]
  omega

theorem gap_comm (a b : Instant) : a.gap b = b.gap a := by
  rw [gap, gap, since_swap b a, Int.natAbs_neg]

end Instant

/-! ### Checks at another time -/

namespace Bundle

variable {b : Bundle} {route : Route} {secret : Bytes} {host : String} {checked : Instant}

/-- One check alone looks at the clock. -/
theorem Check.refusal?_of_ne_age {check : Check} (h : check ≠ .age) (now : Instant) :
    check.refusal? b route secret host now = check.refusal? b route secret host checked := by
  cases check <;> first | rfl | exact absurd rfl h

theorem refusal?_age {c : Commit} (hc : b.commit = some c) {now : Instant}
    (hlate : ¬distance now c.updatedAt ≤ maxAge) :
    Check.age.refusal? b route secret host now = some (.stale (distance now c.updatedAt)) := by
  rw [Check.refusal?, hc, Option.bind_some]
  exact if_neg hlate

/-- What was admitted once is admitted at any time at which its commit is recent, and is stale at any
other. -/
theorem admission_at {a : Admitted} (h : b.admission route secret host checked = .ok a) (now : Instant) :
    b.admission route secret host now =
      if now.gap a.commit.updatedAt < 901 * nanosPerSecond then .ok a
      else .error (.stale (now.gap a.commit.updatedAt / nanosPerSecond)) := by
  have hadmits := admits_of_admission h
  have hpassed := exists_admission_iff.1 ⟨a, h⟩
  split
  · rename_i hnear
    exact admission_of_admits { hadmits with recent := distance_le_iff.2 hnear }
  · rename_i hfar
    have hlate : ¬distance now a.commit.updatedAt ≤ maxAge := mt distance_le_iff.1 hfar
    rw [← distance_eq, admission_eq_error_iff]
    refine ⟨Check.all.take 15, .age, Check.all.drop 16, rfl, refusal?_age hadmits.commit hlate, ?_⟩
    intro earlier hearlier
    have hne : earlier ≠ .age := by
      rintro rfl
      exact absurd hearlier (by decide)
    rw [Check.refusal?_of_ne_age hne now]
    exact hpassed earlier

theorem verifyReturned_at {c : Commit} (hc : b.commit = some c)
    (h : b.verifyReturned secret checked = .ok ()) (now : Instant) :
    b.verifyReturned secret now =
      if now.gap c.updatedAt < 901 * nanosPerSecond then .ok ()
      else .error (.stale (now.gap c.updatedAt / nanosPerSecond)) := by
  unfold verifyReturned at h ⊢
  obtain ⟨t, ht, h⟩ := bind_eq_ok.1 h
  obtain ⟨p, hp, h⟩ := bind_eq_ok.1 h
  obtain ⟨c', hc', h⟩ := bind_eq_ok.1 h
  obtain ⟨_, hvt, h⟩ := bind_eq_ok.1 h
  obtain ⟨_, hvp, h⟩ := bind_eq_ok.1 h
  obtain ⟨_, hvc, -⟩ := bind_eq_ok.1 h
  obtain rfl : c = c' := by
    rw [hc] at hc'
    exact Except.ok.inj hc'
  simp only [ht, hp, hc', hvt, hvp, hvc, bind, Except.bind]
  rw [← distance_eq]
  exact if_congr distance_le_iff rfl rfl

end Bundle

namespace Registry

theorem insert_at {r : Registry} {registration : Registration} {checked : Instant}
    {kept : Registration × Registry} (h : r.insert registration checked = .ok kept) (now : Instant) :
    r.insert registration now =
      if now.gap registration.time < 61 * nanosPerSecond then
        .ok (entryOf registration now, { r with
          hosts := r.hosts.insert registration.hostname (entryOf registration now) })
      else .error (.drift (now.gap registration.time / nanosPerSecond)) := by
  have haccepts : Accepts r.secret r.version registration checked := by
    by_contra hnot
    rcases insert_of_not_accepts hnot with ⟨_, _, herror⟩ | ⟨_, _, herror⟩ | ⟨_, _, _, herror⟩ <;>
      · rw [herror] at h
        cases h
  split
  · rename_i hnear
    exact insert_of_accepts { haccepts with recent := Bundle.distance_le_iff.2 hnear }
  · rename_i hfar
    have hnot : ¬Accepts r.secret r.version registration now :=
      fun hnow => hfar (Bundle.distance_le_iff.1 hnow.recent)
    rcases insert_of_not_accepts hnot with ⟨_, herror, _⟩ | ⟨_, hversion, _⟩ | ⟨_, _, _, hdrift⟩
    · rw [haccepts.signed] at herror
      cases herror
    · exact absurd haccepts.version hversion
    · rw [hdrift, Bundle.distance_eq]

end Registry

/-! ### Checks that pass -/

namespace Bundle

def signedFizzbuzz : Bundle :=
  (fizzbuzz [{ step := 1, problemType := "python3" }]).sign [115]

theorem admission_signedFizzbuzz :
    signedFizzbuzz.admission ⟨"python3", "grade"⟩ [115] "localhost" (.ofSeconds 30) =
      .ok (fizzbuzzAdmitted { step := 1, problemType := "python3" } [] [115]) :=
  admission_of_admits (fizzbuzz_admits _ [] [115] rfl rfl)

theorem verifyReturned_signedFizzbuzz :
    signedFizzbuzz.verifyReturned [115] (.ofSeconds 30) = .ok () := by
  have hadmits := admits_of_admission admission_signedFizzbuzz
  exact Session.verifyReturned_withCommit hadmits hadmits.commitVerified hadmits.recent

end Bundle

namespace Registry

/-- A registration of a host with one place. -/
def onePlace : Registration :=
  ({ hostname := "daycare-1", problemTypes := ["python3"], capacity := 1, time := .ofSeconds 0,
     version := currentVersion } : Registration).sign [115]

theorem accepts_onePlace : Accepts [115] currentVersion onePlace (.ofSeconds 0) where
  signed := Registration.verify_sign _ [115]
  version := rfl
  recent := by decide

end Registry

/-! ### The windows -/

/-- A check keeps a limit of some seconds when it refuses for the time exactly beyond it. -/
def KeepsLimit {ε α : Type} (result : Except ε α) (refusal : Nat → ε) (gap seconds : Nat) : Prop :=
  (∃ n, result = .error (refusal n)) ↔ seconds * nanosPerSecond < gap

/-- A check that refuses from one second after its limit on keeps the limit but for that second. -/
theorem keepsLimit_iff {ε α : Type} {result : Except ε α} {refusal : Nat → ε} {x : α}
    {gap seconds n : Nat}
    (h : result = if gap < (seconds + 1) * nanosPerSecond then .ok x else .error (refusal n)) :
    KeepsLimit result refusal gap seconds ↔
      gap ≤ seconds * nanosPerSecond ∨ (seconds + 1) * nanosPerSecond ≤ gap := by
  have hnext : seconds * nanosPerSecond < (seconds + 1) * nanosPerSecond :=
    Nat.mul_lt_mul_of_pos_right (Nat.lt_succ_self seconds) (by decide)
  rw [KeepsLimit, h]
  split
  · have hpassed : ¬∃ m, (.ok x : Except ε α) = .error (refusal m) := by simp
    simp only [hpassed, false_iff]
    omega
  · have hrefused : ∃ m, (.error (refusal n) : Except ε α) = .error (refusal m) := ⟨n, rfl⟩
    simp only [hrefused, true_iff]
    omega

/-- A bundle that is right but for the time is refused as stale exactly from 901 seconds on, on its way out
and on its way back, and a registration that is right but for the time is refused for its drift exactly from
61 seconds on. So the limits of 15 minutes and of one minute are kept except within the second after them.
Only the time in between counts, and it is the same for the past and the future. -/
theorem time_windows (now : Instant) :
    (∀ (b : Bundle) (route : Route) (secret : Bytes) (host : String) (checked : Instant) (a : Admitted),
      b.admission route secret host checked = .ok a →
        let gap := now.gap a.commit.updatedAt
        let result := b.admission route secret host now
        (result = if gap < 901 * nanosPerSecond then .ok a
          else .error (.stale (gap / nanosPerSecond))) ∧
        (KeepsLimit result .stale gap 900 ↔
          gap ≤ 900 * nanosPerSecond ∨ 901 * nanosPerSecond ≤ gap)) ∧
    (∀ (b : Bundle) (c : Commit) (secret : Bytes) (checked : Instant), b.commit = some c →
      b.verifyReturned secret checked = .ok () →
        let gap := now.gap c.updatedAt
        let result := b.verifyReturned secret now
        (result = if gap < 901 * nanosPerSecond then .ok ()
          else .error (.stale (gap / nanosPerSecond))) ∧
        (KeepsLimit result .stale gap 900 ↔
          gap ≤ 900 * nanosPerSecond ∨ 901 * nanosPerSecond ≤ gap)) ∧
    (∀ (r : Registry) (registration : Registration) (checked : Instant) (kept : Registration × Registry),
      r.insert registration checked = .ok kept →
        let gap := now.gap registration.time
        let result := r.insert registration now
        (result = if gap < 61 * nanosPerSecond then
            .ok (Registry.entryOf registration now, { r with
              hosts := r.hosts.insert registration.hostname (Registry.entryOf registration now) })
          else .error (.drift (gap / nanosPerSecond))) ∧
        (KeepsLimit result .drift gap 60 ↔
          gap ≤ 60 * nanosPerSecond ∨ 61 * nanosPerSecond ≤ gap)) ∧
    ∀ time : Instant, now.gap time = time.gap now := by
  refine ⟨fun b route secret host checked a h => ?_, fun b c secret checked hc h => ?_,
    fun r registration checked kept h => ?_, now.gap_comm⟩
  · have hresult := Bundle.admission_at h now
    exact ⟨hresult, keepsLimit_iff hresult⟩
  · have hresult := Bundle.verifyReturned_at hc h now
    exact ⟨hresult, keepsLimit_iff hresult⟩
  · have hresult := Registry.insert_at h now
    exact ⟨hresult, keepsLimit_iff hresult⟩

/-- What passes soon after it was made is refused 901 seconds or 61 seconds from then, later or earlier. -/
theorem fizzbuzz_out_of_time :
    let r : Registry := { secret := [115], version := Registry.currentVersion }
    Bundle.signedFizzbuzz.admission ⟨"python3", "grade"⟩ [115] "localhost" (.ofSeconds 901) =
      .error (.stale 901) ∧
    Bundle.signedFizzbuzz.verifyReturned [115] (.ofSeconds (-901)) = .error (.stale 901) ∧
    r.insert Registry.onePlace (.ofSeconds (-61)) = .error (.drift 61) := by
  intro r
  have hinsert := Registry.insert_of_accepts (r := r) Registry.accepts_onePlace
  have hadmission := (time_windows (.ofSeconds 901)).1 _ _ _ _ _ _ Bundle.admission_signedFizzbuzz
  have hreturned := (time_windows (.ofSeconds (-901))).2.1 _ Bundle.fizzbuzzCommit _ _ rfl
    Bundle.verifyReturned_signedFizzbuzz
  have hdrift := (time_windows (.ofSeconds (-61))).2.2.1 _ _ _ _ hinsert
  exact ⟨hadmission.1, hreturned.1, hdrift.1⟩

/-- Half a second more than 15 minutes is let in and half a second more than one minute is kept, later or
earlier. -/
theorem half_second_is_dropped :
    let late : Instant := ⟨900, 500000000, by decide, by decide⟩
    let early : Instant := ⟨-901, 500000000, by decide, by decide⟩
    let drifted : Instant := ⟨60, 500000000, by decide, by decide⟩
    let r : Registry := { secret := [115], version := Registry.currentVersion }
    Bundle.signedFizzbuzz.commit = some Bundle.fizzbuzzCommit ∧
    (15 * 60 * nanosPerSecond < late.gap Bundle.fizzbuzzCommit.updatedAt ∧
      ∃ a, Bundle.signedFizzbuzz.admission ⟨"python3", "grade"⟩ [115] "localhost" late = .ok a) ∧
    (15 * 60 * nanosPerSecond < early.gap Bundle.fizzbuzzCommit.updatedAt ∧
      Bundle.signedFizzbuzz.verifyReturned [115] early = .ok ()) ∧
    60 * nanosPerSecond < drifted.gap Registry.onePlace.time ∧
      ∃ kept, r.insert Registry.onePlace drifted = .ok kept := by
  intro late early drifted r
  have hlate := Bundle.admission_at Bundle.admission_signedFizzbuzz late
  have hearly := Bundle.verifyReturned_at rfl Bundle.verifyReturned_signedFizzbuzz early
  have hdrifted :=
    Registry.insert_at (Registry.insert_of_accepts (r := r) Registry.accepts_onePlace) drifted
  rw [if_pos (by decide)] at hlate hearly hdrifted
  exact ⟨rfl, ⟨by decide, _, hlate⟩, ⟨by decide, hearly⟩, by decide, _, hdrifted⟩

end Proctor
