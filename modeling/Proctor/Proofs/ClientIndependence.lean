import Proctor.Proofs.SocketAnswer

/-!
What a client can influence by how it receives. The card, the events and the signed bundle of a session
come from its sandbox alone; a sink that fails only cuts off the events that it is sent. Main statement:
all sinks leave the same final state, the same world and the same signed bundle, whose record is that of
all events, and what gets through is the events up to the first failed send.
-/

namespace Proctor

namespace Sink

/-- The bundle that was tried to be sent, whether it got through or not. -/
def Call.bundle? : Call → Option Bundle
  | .sent frame => frame.bundle
  | .lost frame => frame.bundle
  | .closed => none

/-- The event that got through. -/
def Call.entry? : Call → Option Entry
  | .sent frame => frame.event
  | _ => none

def bundles (s : Sink) : List Bundle :=
  s.calls.filterMap Call.bundle?

def entries (s : Sink) : List Entry :=
  s.calls.filterMap Call.entry?

/-- A last frame is tried on every sink, and then the sink is closed. -/
theorem exists_calls_finish (s : Sink) (frame : Response) :
    ∃ call : Call, (s.finish frame).calls = s.calls ++ [call, .closed] ∧
      (call = .sent frame ∨ call = .lost frame) := by
  by_cases h : s.accepts s.tried = true
  · exact ⟨.sent frame, by simp [finish, close, send, h], .inl rfl⟩
  · exact ⟨.lost frame, by simp [finish, close, send, h], .inr rfl⟩

/-- A last bundle is tried once, whatever failed before it, and is no event. -/
theorem bundles_entries_finish (s : Sink) (bundle : Bundle) :
    (s.finish (.ofBundle bundle)).bundles = s.bundles ++ [bundle] ∧
      (s.finish (.ofBundle bundle)).entries = s.entries := by
  obtain ⟨call, hcalls, hcall⟩ := exists_calls_finish s (.ofBundle bundle)
  have hbundles : [call, .closed].filterMap Call.bundle? = [bundle] := by
    rcases hcall with rfl | rfl <;> rfl
  have hentries : [call, .closed].filterMap Call.entry? = [] := by
    rcases hcall with rfl | rfl <;> rfl
  constructor
  · rw [bundles, hcalls, List.filterMap_append, hbundles, bundles]
  · rw [entries, hcalls, List.filterMap_append, hentries, List.append_nil, entries]

/-- Events that are relayed: none is a bundle, and those that get through are the ones before the first
failure. -/
theorem bundles_entries_passAll (accepts : Nat → Bool) (transcript : Transcript) (emitted : List Entry) :
    let s := (Relay.passAll { sink := { accepts }, transcript } emitted).sink
    s.bundles = [] ∧ ∃ n, s.entries = emitted.take n ∧ (∀ i < n, accepts i = true) ∧
      (n < emitted.length → accepts n = false) := by
  intro s
  obtain ⟨n, -, hcalls, hbefore, hafter⟩ :=
    Relay.exists_calls_passAll (r := { sink := { accepts }, transcript }) rfl emitted
  have hs : s.calls = (emitted.take n).map (fun e => .sent (.ofEntry e)) ++
      (emitted.drop n).head?.toList.map (fun e => .lost (.ofEntry e)) := by
    simp only [s, hcalls, List.nil_append]
  constructor
  · have hnone (l : List Entry) : l.filterMap (fun e => (Response.ofEntry e).bundle) = [] :=
      List.filterMap_eq_nil_iff.2 fun _ _ => rfl
    rw [bundles, hs, List.filterMap_append, List.filterMap_map, List.filterMap_map]
    simp only [Function.comp_def, Call.bundle?, hnone, List.append_nil]
  · have hsent (l : List Entry) : l.filterMap (fun e => (Response.ofEntry e).event) = l :=
      List.filterMap_some
    have hlost (l : List Entry) : l.filterMap (fun _ => (none : Option Entry)) = [] :=
      List.filterMap_eq_nil_iff.2 fun _ _ => rfl
    refine ⟨n, ?_, by simpa [tried] using hbefore, by simpa [tried] using hafter⟩
    rw [entries, hs, List.filterMap_append, List.filterMap_map, List.filterMap_map]
    simp only [Function.comp_def, Call.entry?, hsent, hlost, List.append_nil]

end Sink

namespace Session

variable {σ : Type}

/-- What happens in the sandbox of an admitted session: its card, unless its command runs on, and the entries
that it emits, in order; or why there is no container. -/
def happenings (engine : Engine σ) (a : Admitted) (readings : Readings) (w : World σ) :
    Except EngineError (Option ReportCard × List Entry) × World σ :=
  match Sandbox.create engine (order a) readings.draw w with
  | (.error e, w) => (.error e, w)
  | (.ok sandbox, world) =>
    match perform engine a readings { sandbox, world } with
    | (none, r) => (.ok (none, entries readings r.events), r.world)
    | (some card, r) => (.ok (some card, entries readings r.events), r.leave)

/-- The session of a request in the world in which it gets its slot. -/
def conclude (engine : Engine σ) (host : Host) (route : Route) (request : Request)
    (readings : Readings) (sink : Sink) (w : World σ) : (State × Sink) × World σ :=
  match admission host route readings.started request with
  | .error e => (abort e.message sink, w)
  | .ok a => attend engine host route a readings sink w

variable {engine : Engine σ} {host : Host} {route : Route} {request : Request} {readings : Readings}
  {a : Admitted} {world after : World σ}

/-- Whether a session waits does not depend on its sink; one that does not wait is concluded at once. -/
theorem run_waits_or_concludes (engine : Engine σ) (host : Host) (number : Nat) (route : Route)
    (request : Request) (readings : Readings) (s : Host.State σ) :
    (∃ later, ∀ sink, run engine host number route request readings sink s = ((.waiting, sink), later)) ∨
      ∃ slots, ∀ sink, run engine host number route request readings sink s =
        ((conclude engine host route request readings sink s.world).1,
          ⟨slots, (conclude engine host route request readings sink s.world).2⟩) := by
  unfold run conclude
  cases admission host route readings.started request with
  | error e => exact .inr ⟨s.slots, fun _ => rfl⟩
  | ok a =>
    by_cases hheld : number ∈ (s.slots.acquire number).held
    · -- Whether the slot is kept is settled by the sandbox as well.
      have hexecuting (sink : Sink) := attend_executing_iff engine host route a readings sink s.world
      by_cases hruns : RunsOn engine a readings s.world
      · refine .inr ⟨s.slots.acquire number, fun sink => ?_⟩
        simp only [if_pos hheld, if_pos ((hexecuting sink).2 hruns)]
      · refine .inr ⟨(s.slots.acquire number).release number, fun sink => ?_⟩
        simp only [if_pos hheld, if_neg (mt (hexecuting sink).1 hruns)]
    · exact .inl ⟨{ s with slots := s.slots.acquire number }, fun _ => by simp only [if_neg hheld]⟩

/-- What a session does with what happened in its sandbox. -/
theorem attend_of_happenings {happened : Except EngineError (Option ReportCard × List Entry)}
    (h : happenings engine a readings world = (happened, after)) (sink : Sink) :
    attend engine host route a readings sink world = (match happened with
      | .error e => abort s!"creating container: {e.message}" sink
      | .ok (none, emitted) =>
        (.executing, (Relay.passAll { sink, transcript := emptyRecord host } emitted).sink)
      | .ok (some card, emitted) =>
        let relay := Relay.passAll { sink, transcript := emptyRecord host } emitted
        let bundle := gradedBundle host a relay.transcript.entries card readings.started
        (.responded, if route.action = gradedAction then relay.sink.finish (.ofBundle bundle)
          else relay.sink.close), after) := by
  rcases hcreate : Sandbox.create engine (order a) readings.draw world with ⟨e | sandbox, world'⟩
  · simp only [happenings, hcreate, Prod.mk.injEq] at h
    obtain ⟨rfl, rfl⟩ := h
    simp only [attend, hcreate]
  · rcases hperform : perform engine a readings { sandbox, world := world' } with ⟨_ | card, r⟩
    · simp only [happenings, hcreate, hperform, Prod.mk.injEq] at h
      obtain ⟨rfl, rfl⟩ := h
      simp only [attend, hcreate, hperform, relayed]
    · simp only [happenings, hcreate, hperform, Prod.mk.injEq] at h
      obtain ⟨rfl, rfl⟩ := h
      simp only [attend, hcreate, hperform, respond, relayed]

/-- A graded session sends the bundle after the entries that its sandbox emitted. -/
theorem attend_of_card (hroute : route.action = gradedAction) {card : ReportCard}
    {emitted : List Entry} (h : happenings engine a readings world = (.ok (some card, emitted), after))
    (sink : Sink) :
    let record := ((emptyRecord host).recordAll emitted).entries
    attend engine host route a readings sink world =
      ((.responded, (Relay.passAll { sink, transcript := emptyRecord host } emitted).sink.finish
        (.ofBundle (gradedBundle host a record card readings.started))), after) := by
  simp only [attend_of_happenings h, if_pos hroute, Relay.transcript_passAll]

/-- Neither the final state nor the world nor the bundle depends on what a sink does. -/
theorem conclude_independent (hroute : route.action = gradedAction) (accepts accepts' : Nat → Bool) :
    let one := conclude engine host route request readings { accepts } world
    let other := conclude engine host route request readings { accepts := accepts' } world
    one.1.1 = other.1.1 ∧ one.2 = other.2 ∧ one.1.2.bundles = other.1.2.bundles := by
  have refused (accepts : Nat → Bool) (message : String) :
      (abort message { accepts }).2.bundles = [] := by
    obtain ⟨call, hcalls, hcall⟩ := Sink.exists_calls_finish { accepts } (.ofError message)
    rw [abort, Sink.bundles, hcalls]
    rcases hcall with rfl | rfl <;> rfl
  have relayed (accepts : Nat → Bool) (emitted : List Entry) :=
    (Sink.bundles_entries_passAll accepts (emptyRecord host) emitted).1
  unfold conclude
  cases hadmission : admission host route readings.started request with
  | error e => exact ⟨rfl, rfl, (refused ..).trans (refused ..).symm⟩
  | ok a =>
    rcases hhappenings : happenings engine a readings world with ⟨e | ⟨_ | card, emitted⟩, after⟩
    · simp only [attend_of_happenings hhappenings]
      exact ⟨rfl, trivial, (refused ..).trans (refused ..).symm⟩
    · simp only [attend_of_happenings hhappenings, relayed]
      exact ⟨trivial, trivial, trivial⟩
    · simp only [attend_of_card hroute hhappenings, (Sink.bundles_entries_finish _ _).1, relayed]
      exact ⟨trivial, trivial, trivial⟩

theorem transcript_gradedBundle (host : Host) (a : Admitted) (record : List Entry) (card : ReportCard)
    (started : Instant) :
    ∃ commit, (gradedBundle host a record card started).commit = some commit ∧
      commit.transcript = record :=
  ⟨gradedCommit a.commit record card started, rfl, rfl⟩

/-- A client cannot influence what is signed by how it receives. Whatever two sinks do, the session of a
graded action waits on both or on none, and it ends in the same state, the same world and the same signed
bundle. The record in the bundle is that of all entries that the sandbox emitted, and those that get through
are the entries before the first failed send, whatever the record has room for. While a command runs on,
nothing is signed. -/
theorem client_has_no_influence (hroute : route.action = gradedAction) (engine : Engine σ) (host : Host)
    (request : Request) (readings : Readings) :
    (∀ number s,
      (∃ later, ∀ sink,
        run engine host number route request readings sink s = ((.waiting, sink), later)) ∨
      ∃ slots, ∀ sink, run engine host number route request readings sink s =
        ((conclude engine host route request readings sink s.world).1,
          ⟨slots, (conclude engine host route request readings sink s.world).2⟩)) ∧
    ∀ world,
      (∀ accepts accepts' : Nat → Bool,
        let one := conclude engine host route request readings { accepts } world
        let other := conclude engine host route request readings { accepts := accepts' } world
        one.1.1 = other.1.1 ∧ one.2 = other.2 ∧ one.1.2.bundles = other.1.2.bundles) ∧
      ∀ a card emitted after, admission host route readings.started request = .ok a →
        happenings engine a readings world = (.ok (card, emitted), after) →
        ∀ accepts : Nat → Bool,
          let sink := (conclude engine host route request readings { accepts } world).1.2
          (card = none → sink.bundles = []) ∧
          (card.isSome → ∃ bundle commit, sink.bundles = [bundle] ∧ bundle.commit = some commit ∧
            commit.transcript = (emitted.foldl Transcript.record
              { dataLimit := host.dataLimit, entryLimit := host.entryLimit }).entries) ∧
          ∃ n, sink.entries = emitted.take n ∧ (∀ i < n, accepts i = true) ∧
            (n < emitted.length → accepts n = false) := by
  refine ⟨fun number s => run_waits_or_concludes engine host number route request readings s, ?_⟩
  intro world
  refine ⟨conclude_independent hroute, ?_⟩
  intro a card emitted after hadmission hhappenings accepts sink
  obtain ⟨hnone, hpassed⟩ := Sink.bundles_entries_passAll accepts (emptyRecord host) emitted
  cases card with
  | none =>
    have hsink : sink =
        (Relay.passAll { sink := { accepts }, transcript := emptyRecord host } emitted).sink := by
      simp only [sink, conclude, hadmission, attend_of_happenings hhappenings]
    rw [hsink]
    exact ⟨fun _ => hnone, (by simp), hpassed⟩
  | some card =>
    obtain ⟨record, hrecord⟩ : ∃ r, r = ((emptyRecord host).recordAll emitted).entries := ⟨_, rfl⟩
    have hsink : sink = (Relay.passAll { sink := { accepts }, transcript := emptyRecord host }
        emitted).sink.finish (.ofBundle (gradedBundle host a record card readings.started)) := by
      simp only [sink, conclude, hadmission, attend_of_card hroute hhappenings, hrecord]
    obtain ⟨hbundles, hentries⟩ := Sink.bundles_entries_finish
      (Relay.passAll { sink := { accepts }, transcript := emptyRecord host } emitted).sink
      (gradedBundle host a record card readings.started)
    obtain ⟨commit, hcommit, htranscript⟩ :=
      transcript_gradedBundle host a record card readings.started
    rw [hnone, List.nil_append] at hbundles
    rw [hsink, hentries]
    exact ⟨(by simp), fun _ => ⟨_, commit, hbundles, hcommit, htranscript.trans hrecord⟩, hpassed⟩

/-- A client that receives nothing still gets the run of its command signed. -/
theorem stalled_unseen_is_signed :
    let route : Route := ⟨"python3", "grade"⟩
    let host : Host := { secret := [115], hostname := "localhost" }
    let request : Request := {
      bundle := some ((Bundle.fizzbuzz [{ step := 1, problemType := "python3" }]).sign [115]) }
    let readings : Readings := ⟨.ofSeconds 30, fun _ => .ofSeconds 30, 30, .ofSeconds 1, 0⟩
    let seen := conclude stalled host route request readings { accepts := fun _ => true } ⟨(), {}⟩
    let unseen := conclude stalled host route request readings { accepts := fun _ => false } ⟨(), {}⟩
    route.action = gradedAction ∧ seen.1.1 = unseen.1.1 ∧ seen.1.2.bundles = unseen.1.2.bundles ∧
      unseen.1.2.entries = [] ∧
      ∃ bundle commit, unseen.1.2.bundles = [bundle] ∧ bundle.commit = some commit ∧
        commit.transcript = [⟨.ofSeconds 30, .exec ["make", "grade"]⟩] := by
  intro route host request readings
  dsimp only
  have hroute : route.action = gradedAction := rfl
  have hadmits := Bundle.fizzbuzz_admits { step := 1, problemType := "python3" } [] [115] rfl rfl
  obtain ⟨card, after, hhappenings⟩ : ∃ card after, happenings stalled
      (Bundle.fizzbuzzAdmitted { step := 1, problemType := "python3" } [] [115]) readings ⟨(), {}⟩ =
        (.ok (some card, [⟨.ofSeconds 30, .exec ["make", "grade"]⟩]), after) := ⟨_, _, rfl⟩
  obtain ⟨hindependent, hrecord⟩ :=
    (client_has_no_influence hroute stalled host request readings).2 ⟨(), {}⟩
  obtain ⟨hstate, _, hbundles⟩ := hindependent (fun _ => true) (fun _ => false)
  obtain ⟨_, hsigned, n, hentries, hbefore, _⟩ :=
    hrecord _ (some card) _ after (Bundle.admission_of_admits hadmits) hhappenings (fun _ => false)
  obtain ⟨bundle, commit, hbundle, hcommit, htranscript⟩ := hsigned rfl
  have hn : n = 0 := by
    by_contra hne
    exact absurd (hbefore 0 (Nat.pos_of_ne_zero hne)) (by decide)
  refine ⟨hroute, hstate, hbundles, ?_, bundle, commit, hbundle, hcommit, htranscript⟩
  rw [hn] at hentries
  exact hentries

end Session

end Proctor
