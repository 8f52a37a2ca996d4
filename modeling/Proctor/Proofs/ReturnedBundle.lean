import Proctor.Dispatch
import Proctor.Proofs.Admission
import Proctor.Proofs.CanonicalText
import Proctor.Proofs.EventRelay
import Proctor.Proofs.SessionCourse

/-!
The bundle of a graded session. Whatever the engine does, the bundle that goes back is the one that was
asked for with a new record, report, score, time and commit signature, and it passes the checks that are
made on its return while its commit is recent.
-/

namespace Proctor

namespace Sink

/-- A frame is on a sink only if it was there before or was just sent. -/
theorem mem_frames_send {frame sent : Response} {s : Sink} (h : frame ∈ (s.send sent).2.frames) :
    frame ∈ s.frames ∨ frame = sent := by
  unfold send at h
  split at h
  · simpa [Call.frame?] using h
  · exact .inl (by simpa [Call.frame?] using h)

theorem mem_frames_finish {frame sent : Response} {s : Sink} (h : frame ∈ (s.finish sent).frames) :
    frame ∈ s.frames ∨ frame = sent := by
  apply mem_frames_send
  rwa [finish, frames_close] at h

theorem send_of_accepts {s : Sink} (hs : ∀ n, s.accepts n = true) (frame : Response) :
    s.send frame = (true, s.note (.sent frame)) := by
  rw [send, if_pos (hs _)]

theorem finish_of_accepts {s : Sink} (hs : ∀ n, s.accepts n = true) (frame : Response) :
    (s.finish frame).calls = s.calls ++ [.sent frame, .closed] := by
  simp [finish, close, send_of_accepts hs]

/-- A frame that was sent and got through is on the sink. -/
theorem mem_frames_of_sent {s : Sink} {frame : Response} (h : .sent frame ∈ s.calls) :
    frame ∈ s.frames :=
  List.mem_filterMap.2 ⟨_, h, rfl⟩

end Sink

namespace Bundle

/-- The bundle with another commit and another commit signature. -/
def withCommit (b : Bundle) (commit : Commit) (signature : String) : Bundle :=
  { b with commit := some commit, commitSignature := signature }

end Bundle

namespace Session

variable {σ : Type}

/-- The parts of an admitted bundle are put together as they were taken apart. -/
theorem bundleAround_eq {b : Bundle} {route : Route} {secret : Bytes} {host : String} {now : Instant}
    {a : Admitted} (h : b.Admits route secret host now a) (commit : Commit) :
    a.bundleAround commit = b.withCommit commit "" := by
  simp only [Admitted.bundleAround, Bundle.withCommit, ← h.problemTypeSignature,
    ← h.problemSignature, ← h.hostname, ← h.userId, ← h.steps, ← h.problemType, ← h.problem]

theorem gradedBundle_eq {b : Bundle} {route : Route} {host : Host} {now : Instant} {a : Admitted}
    (h : b.Admits route host.secret host.hostname now a) (record : List Entry) (card : ReportCard)
    (started : Instant) :
    let commit := gradedCommit a.commit record card started
    gradedBundle host a record card started =
      b.withCommit commit (commit.sign b.context host.secret) := by
  intro commit
  rw [gradedBundle, bundleAround_eq h]
  rfl

/-- A commit that is put into an admitted bundle is checked by its own signature and its own time: the
other two signatures have come with the bundle. -/
theorem verifyReturned_withCommit {b : Bundle} {route : Route} {secret : Bytes} {host : String}
    {now later : Instant} {a : Admitted} (h : b.Admits route secret host now a) {commit : Commit}
    {signature : String} (hverified : commit.verify b.context secret signature = .ok ())
    (hage : Bundle.distance later commit.updatedAt ≤ Bundle.maxAge) :
    (b.withCommit commit signature).verifyReturned secret later = .ok () := by
  simp only [Bundle.context] at hverified
  simp only [Bundle.verifyReturned, Bundle.withCommit, Bundle.context, h.problemType, h.problem,
    Dispatch.part, bind, Except.bind, h.problemTypeVerified, h.problemVerified, hverified,
    Except.mapError, if_pos hage]

theorem verifyReturned_gradedBundle {b : Bundle} {route : Route} {host : Host} {now : Instant}
    {a : Admitted} (h : b.Admits route host.secret host.hostname now a) (record : List Entry)
    (card : ReportCard) (started later : Instant)
    (hlater : (later.since started).natAbs ≤ 900 * nanosPerSecond) :
    (gradedBundle host a record card started).verifyReturned host.secret later = .ok () := by
  rw [gradedBundle_eq h]
  exact verifyReturned_withCommit h (Signature.Fields.verify_sign _ _ _) (Bundle.distance_le hlater)

/-- A frame that is relayed is an event. -/
theorem mem_frames_relayed {host : Host} {readings : Readings} {events : List Event} {sink : Sink}
    {frame : Response} (h : frame ∈ (relayed host readings events sink).sink.frames) :
    frame ∈ sink.frames ∨ ∃ e, frame = .ofEntry e :=
  Relay.mem_frames_passAll rfl h

/-- A sink that never fails gets all events. -/
theorem calls_relayed (host : Host) (readings : Readings) (events : List Event) {sink : Sink}
    (hs : ∀ n, sink.accepts n = true) :
    (relayed host readings events sink).sink.calls =
        sink.calls ++ (entries readings events).map (fun e => .sent (.ofEntry e)) ∧
      ∀ n, (relayed host readings events sink).sink.accepts n = true :=
  Relay.calls_passAll_of_accepts (r := { sink, transcript := emptyRecord host }) rfl hs _

/-- The frames of an answer are events and, where the action is graded, one bundle. -/
theorem mem_frames_respond {host : Host} {route : Route} {a : Admitted} {readings : Readings}
    {card : ReportCard} {events : List Event} {sink : Sink} {frame : Response}
    (h : frame ∈ (respond host route a readings card events sink).2.frames) :
    frame ∈ sink.frames ∨ (∃ e, frame = .ofEntry e) ∨
      ∃ record, frame = .ofBundle (gradedBundle host a record card readings.started) := by
  simp only [respond] at h
  split at h
  · rcases Sink.mem_frames_finish h with h | rfl
    · exact (mem_frames_relayed h).imp_right .inl
    · exact .inr (.inr ⟨_, rfl⟩)
  · rw [Sink.frames_close] at h
    exact (mem_frames_relayed h).imp_right .inl

/-- A bundle that an admitted session sends is the graded bundle of some card. -/
theorem bundle_of_attend {engine : Engine σ} {host : Host} {route : Route} {a : Admitted}
    {readings : Readings} {accepts : Nat → Bool} {w : World σ} {frame : Response} {bundle : Bundle}
    (h : frame ∈ (attend engine host route a readings { accepts } w).1.2.frames)
    (hb : frame.bundle = some bundle) :
    ∃ record card, bundle = gradedBundle host a record card readings.started := by
  rcases attend_cases engine host route a readings { accepts } w with
    ⟨_, _, _, hattend⟩ | ⟨_, _, _, _, ⟨_, _, hattend⟩ | ⟨_, _, _, hattend⟩⟩
  · rw [hattend] at h
    rcases Sink.mem_frames_finish h with h | rfl
    · cases h
    · cases hb
  · rw [hattend] at h
    rcases mem_frames_relayed h with h | ⟨e, rfl⟩
    · cases h
    · cases hb
  · rw [hattend] at h
    rcases mem_frames_respond h with h | ⟨e, rfl⟩ | ⟨record, rfl⟩
    · cases h
    · cases hb
    · cases hb
      exact ⟨_, _, rfl⟩

/-- A graded action that gets a container ends in a bundle when the client stays, whatever became of
its command, unless that runs on. -/
theorem exists_bundle_of_attend {engine : Engine σ} {host : Host} {route : Route} {a : Admitted}
    {readings : Readings} {accepts : Nat → Bool} {w world : World σ} {sandbox : Sandbox}
    (hroute : route.action = gradedAction) (haccepts : ∀ n, accepts n = true)
    (hcreate : Sandbox.create engine (order a) readings.draw w = (.ok sandbox, world))
    (hends : ¬RunsOn engine a readings w) :
    ∃ bundle, .ofBundle bundle ∈ (attend engine host route a readings { accepts } w).1.2.frames := by
  rcases attend_cases engine host route a readings { accepts } w with
    ⟨_, _, herror, _⟩ | ⟨_, _, r, _, ⟨hruns, _⟩ | ⟨_, card, _, hattend⟩⟩
  · rw [hcreate] at herror
    cases herror
  · exact absurd hruns hends
  · simp only [hattend, respond, hroute, if_true]
    obtain ⟨_, hall⟩ := @calls_relayed host readings r.events { accepts } haccepts
    have hsent (frame : Response) := Sink.finish_of_accepts hall frame
    exact ⟨_, Sink.mem_frames_of_sent (hsent _ ▸ List.mem_append_right _ (.head _))⟩

/-- The frames that the session of a request sends, either at once or after it has waited for a slot,
when the world may have changed. -/
def Sends (engine : Engine σ) (host : Host) (route : Route) (request : Request) (readings : Readings)
    (accepts : Nat → Bool) (frame : Response) : Prop :=
  (∃ number s, frame ∈
    (run engine host number route request readings { accepts } s).1.2.frames) ∨
  ∃ a w, admission host route readings.started request = .ok a ∧
    frame ∈ (attend engine host route a readings { accepts } w).1.2.frames

/-- A bundle goes back only from an admitted request. -/
theorem bundle_of_sends {engine : Engine σ} {host : Host} {route : Route} {request : Request}
    {readings : Readings} {accepts : Nat → Bool} {frame : Response} {bundle : Bundle}
    (h : Sends engine host route request readings accepts frame)
    (hb : frame.bundle = some bundle) :
    ∃ a record card, admission host route readings.started request = .ok a ∧
      bundle = gradedBundle host a record card readings.started := by
  rcases h with ⟨number, s, h⟩ | ⟨a, w, ha, h⟩
  · rw [run] at h
    split at h
    · rcases Sink.mem_frames_finish h with h | rfl
      · cases h
      · cases hb
    · rename_i a ha
      simp only at h
      split at h
      · obtain ⟨record, card, hbundle⟩ := bundle_of_attend h hb
        exact ⟨a, record, card, ha, hbundle⟩
      · cases h
  · obtain ⟨record, card, hbundle⟩ := bundle_of_attend h hb
    exact ⟨a, record, card, ha, hbundle⟩

theorem admits_of_session_admission {host : Host} {route : Route} {started : Instant}
    {request : Request} {a : Admitted} (h : admission host route started request = .ok a) :
    ∃ b, request.bundle = some b ∧ b.Admits route host.secret host.hostname started a := by
  rw [admission] at h
  split at h
  · cases h
  · rename_i b hb
    exact ⟨b, hb, Bundle.admits_of_admission h⟩

/-- Whatever engine, client and clocks do, a bundle that a session sends passes the checks on returned
bundles for fifteen minutes around the start of the session, and it is the bundle of the request but
for the record, the report, the score, the time and the signature of its commit. -/
theorem sent_bundle_accepted {engine : Engine σ} {host : Host} {route : Route} {request : Request}
    {readings : Readings} {accepts : Nat → Bool} {frame : Response} {bundle : Bundle}
    (h : Sends engine host route request readings accepts frame)
    (hb : frame.bundle = some bundle) :
    (∀ now : Instant, (now.since readings.started).natAbs ≤ 900 * nanosPerSecond →
      bundle.verifyReturned host.secret now = .ok ()) ∧
    ∃ asked commit record card signature,
      request.bundle = some asked ∧ asked.commit = some commit ∧
      bundle = { asked with
        commit := some { commit with
          transcript := record
          reportCard := some card
          score := card.score
          updatedAt := readings.started }
        commitSignature := signature } := by
  obtain ⟨a, record, card, ha, rfl⟩ := bundle_of_sends h hb
  obtain ⟨asked, hasked, hadmits⟩ := admits_of_session_admission ha
  constructor
  · intro now hnow
    exact verifyReturned_gradedBundle hadmits record card readings.started now hnow
  · have heq := gradedBundle_eq hadmits record card readings.started
    exact ⟨asked, a.commit, record, card, _, hasked, hadmits.commit, heq⟩

/-- An engine whose commands do not end by themselves. -/
def stalled : Engine Unit where
  create := fun _ s => (.ok (), s)
  copyIn := fun _ _ _ s => (.ok (), s)
  exec := fun _ _ _ s => ({ ending := .running }, s)
  copyOut := fun name _ s => (.error (.notFound name), s)
  remove := fun _ s => (.ok (), s)

/-- A command that is cut off is graded, and what is sent is accepted. -/
theorem stalled_bundle_accepted :
    let host : Host := { secret := [115], hostname := "localhost" }
    let request : Request := {
      bundle := some ((Bundle.fizzbuzz [{ step := 1, problemType := "python3" }]).sign [115]) }
    let readings : Readings := ⟨.ofSeconds 30, fun _ => .ofSeconds 30, 30, .ofSeconds 1, 0⟩
    ∃ bundle, Sends stalled host ⟨"python3", "grade"⟩ request readings (fun _ => true)
        (.ofBundle bundle) ∧
      ∀ now : Instant, (now.since readings.started).natAbs ≤ 900 * nanosPerSecond →
        bundle.verifyReturned [115] now = .ok () := by
  intro host request readings
  have hadmits := Bundle.fizzbuzz_admits { step := 1, problemType := "python3" } [] [115] rfl rfl
  obtain ⟨bundle, hbundle⟩ : ∃ bundle, .ofBundle bundle ∈ (attend stalled host ⟨"python3", "grade"⟩
      (Bundle.fizzbuzzAdmitted { step := 1, problemType := "python3" } [] [115]) readings
      { accepts := fun _ => true } ⟨(), {}⟩).1.2.frames :=
    exists_bundle_of_attend rfl (fun _ => rfl) rfl (not_runsOn (by decide) _ _ _)
  have hsends : Sends stalled host ⟨"python3", "grade"⟩ request readings (fun _ => true)
      (.ofBundle bundle) :=
    .inr ⟨_, _, Bundle.admission_of_admits hadmits, hbundle⟩
  exact ⟨bundle, hsends, (sent_bundle_accepted hsends rfl).1⟩

end Session

end Proctor
