import Proctor.Proofs.NothingLeft
import Proctor.Proofs.ReturnedBundle
import Proctor.Proofs.WireForm
import Proctor.Socket.Opening

/-!
The answer to a socket. What a client sends counts only up to its first text or binary message. Main
statement: on a sink that never fails the answer is one error frame, or events with a bundle after them
exactly when the action is graded, and the sink is closed once, at the end; only a command without a time
limit that does not end leaves a socket with its events and without an end.
-/

namespace Proctor

namespace Response

/-- How many fields of a frame are set. -/
def fieldCount (r : Response) : Nat :=
  r.bundle.toList.length + r.event.toList.length + r.error.toList.length

@[simp] theorem fieldCount_ofBundle (b : Bundle) : (ofBundle b).fieldCount = 1 := rfl
@[simp] theorem fieldCount_ofEntry (e : Entry) : (ofEntry e).fieldCount = 1 := rfl
@[simp] theorem fieldCount_ofError (message : String) : (ofError message).fieldCount = 1 := rfl

/-- Where no frame is an error, none comes after an event. -/
theorem pairwise_of_no_error {frames : List Response} (h : ∀ frame ∈ frames, frame.error = none) :
    frames.Pairwise (fun earlier later => ¬(earlier.event.isSome ∧ later.error.isSome)) := by
  apply List.pairwise_of_forall_mem_list
  rintro earlier _ later hlater ⟨_, herror⟩
  simp [h later hlater] at herror

end Response

namespace Socket

/-- The first text or binary message before a close, or the breach that comes before both. -/
def opening : List Incoming → Option Incoming
  | [] => none
  | .message .close :: _ => none
  | .message .ping :: rest => opening rest
  | .message .pong :: rest => opening rest
  | first :: _ => some first

/-- The request that is read from all that counts. -/
def requestOf : Option Incoming → Except OpeningError Request
  | some (.message (.text content)) => readRequest (Json.ofText? content)
  | some (.message (.binary content)) => readRequest (Json.ofBytes? content)
  | some (.breach breach) => .error (.breach breach)
  | _ => .error .closed

theorem firstRequest_eq (received : List Incoming) :
    firstRequest received = requestOf (opening received) := by
  fun_induction firstRequest received <;> simp_all [opening, requestOf]

variable {σ : Type}

section Answers

variable (engine : Engine σ) (host : Host) (w : Wording) (number : Nat) (route : Route)
  (readings : Session.Readings) (received : List Incoming)

/-- How a socket is answered when its session gets a slot in some world: at once in the world of the host,
or in any world after it had to wait. -/
inductive Answers (sink : Sink) (s : Host.State σ) : World σ → Session.State × Sink → Prop
  | atOnce {answer : Session.State × Sink} {after : Host.State σ}
      (h : serve engine host w number route received readings sink s = (answer, after))
      (hends : answer.1 ≠ .waiting) : Answers sink s s.world answer
  | afterWaiting {waiting : Sink} {after : Host.State σ} {request : Request} {a : Admitted}
      (h : serve engine host w number route received readings sink s = ((.waiting, waiting), after))
      (hrequest : firstRequest received = .ok request)
      (ha : Session.admission host route readings.started request = .ok a) (world : World σ) :
      Answers sink s world (Session.attend engine host route a readings waiting world).1

/-- Why a socket is answered with an error: it does not open with a request, the request is not admitted,
or its container cannot be created. -/
inductive Refused (world : World σ) : String → Prop
  | opening {e : OpeningError} (h : firstRequest received = .error e) : Refused world (e.message w)
  | admission {request : Request} {e : AdmissionError} (hrequest : firstRequest received = .ok request)
      (h : Session.admission host route readings.started request = .error e) : Refused world e.message
  | container {request : Request} {a : Admitted} {e : EngineError}
      (hrequest : firstRequest received = .ok request)
      (ha : Session.admission host route readings.started request = .ok a)
      (h : (Sandbox.create engine (Session.order a) readings.draw world).1 = .error e) :
      Refused world s!"creating container: {e.message}"

/-- A socket opens with a request that is admitted, and its command runs on. -/
def Endless (world : World σ) : Prop :=
  ∃ request a, firstRequest received = .ok request ∧
    Session.admission host route readings.started request = .ok a ∧
    Session.RunsOn engine a readings world

end Answers

end Socket

namespace Session

variable (host : Host) (route : Route) (a : Admitted) (readings : Readings)

/-- The frames of a response: every event, and after them the bundle of a graded action. -/
def responseFrames (card : ReportCard) (events : List Event) : List Response :=
  let entries := entries readings events
  let record := ((emptyRecord host).recordAll entries).entries
  entries.map .ofEntry ++
    if route.action = gradedAction then
      [.ofBundle (gradedBundle host a record card readings.started)]
    else []

/-- A frame of a response is an event or a bundle. -/
theorem mem_responseFrames {card : ReportCard} {events : List Event} {frame : Response}
    (h : frame ∈ responseFrames host route a readings card events) :
    (∃ e, frame = .ofEntry e) ∨ ∃ b, frame = .ofBundle b := by
  rcases List.mem_append.1 h with h | h
  · obtain ⟨e, _, rfl⟩ := List.mem_map.1 h
    exact .inl ⟨e, rfl⟩
  · split at h
    · exact .inr ⟨_, List.mem_singleton.1 h⟩
    · cases h

theorem fieldCount_of_mem_responseFrames {card : ReportCard} {events : List Event} {frame : Response}
    (h : frame ∈ responseFrames host route a readings card events) : frame.fieldCount = 1 := by
  rcases mem_responseFrames host route a readings h with ⟨e, rfl⟩ | ⟨b, rfl⟩
  · exact Response.fieldCount_ofEntry e
  · exact Response.fieldCount_ofBundle b

theorem error_of_mem_responseFrames {card : ReportCard} {events : List Event} {frame : Response}
    (h : frame ∈ responseFrames host route a readings card events) : frame.error = none := by
  rcases mem_responseFrames host route a readings h with ⟨e, rfl⟩ | ⟨b, rfl⟩
  · rfl
  · rfl

/-- On a sink that never fails a response is sent whole, and the sink is closed after it. -/
theorem calls_respond {sink : Sink} (hs : ∀ n, sink.accepts n = true) (card : ReportCard)
    (events : List Event) : (respond host route a readings card events sink).2.calls =
      sink.calls ++ (responseFrames host route a readings card events).map .sent ++ [.closed] := by
  obtain ⟨hcalls, haccepts⟩ := calls_relayed host readings events hs
  have hrecord : (relayed host readings events sink).transcript =
      (emptyRecord host).recordAll (entries readings events) := Relay.transcript_passAll _ _
  simp only [respond, responseFrames, hrecord]
  split
  · rw [Sink.finish_of_accepts haccepts, hcalls]
    simp
  · rw [Sink.close, Sink.calls_note, hcalls]
    simp

end Session

namespace Socket

variable {σ : Type} (engine : Engine σ) (host : Host) (w : Wording) (number : Nat) (route : Route)
  (readings : Session.Readings) (received : List Incoming) (sink : Sink) (s : Host.State σ)

/-- A socket is answered with the error of a refusal, or its session is admitted; then the session is
attended to, or waits without having done anything. -/
theorem serve_cases :
    (∃ message, (∀ world, Refused engine host w route readings received world message) ∧
      (serve engine host w number route received readings sink s).1 = Session.abort message sink) ∨
    ∃ request a, firstRequest received = .ok request ∧
      Session.admission host route readings.started request = .ok a ∧
      ((serve engine host w number route received readings sink s).1 = (.waiting, sink) ∨
        (serve engine host w number route received readings sink s).1 =
          (Session.attend engine host route a readings sink s.world).1) := by
  unfold serve
  cases hfirst : firstRequest received with
  | error e => exact .inl ⟨_, fun world => .opening hfirst, rfl⟩
  | ok request =>
    cases ha : Session.admission host route readings.started request with
    | error e =>
      refine .inl ⟨e.message, fun world => .admission hfirst ha, ?_⟩
      simp only [Session.run, ha]
    | ok a =>
      refine .inr ⟨request, a, rfl, ha, ?_⟩
      simp only [Session.run, ha]
      split
      · exact .inr rfl
      · exact .inl rfl

/-- Every socket is answered, in one world or another. -/
theorem exists_answer :
    ∃ world answer, Answers engine host w number route readings received sink s world answer := by
  rcases serve_cases engine host w number route readings received sink s with
    ⟨message, _, hrefused⟩ | ⟨request, a, hrequest, ha, hwaits | hattended⟩
  · exact ⟨s.world, _, .atOnce (Prod.ext hrefused rfl) (by simp)⟩
  · exact ⟨s.world, _, .afterWaiting (Prod.ext hwaits rfl) hrequest ha _⟩
  · have hends := Session.attend_ne_waiting engine host route a readings sink s.world
    exact ⟨s.world, _, .atOnce (Prod.ext hattended rfl) hends⟩

variable {engine host w number route readings received sink s} {world : World σ}
  {answer : Session.State × Sink}

/-- An answer is the error of a refusal, or it is that of an admitted session in the world where the session
gets its slot. -/
theorem answer_cases (h : Answers engine host w number route readings received sink s world answer) :
    (∃ message, Refused engine host w route readings received world message ∧
      answer = Session.abort message sink) ∨
    ∃ request a, firstRequest received = .ok request ∧
      Session.admission host route readings.started request = .ok a ∧
      answer = (Session.attend engine host route a readings sink world).1 := by
  have hserve := serve_cases engine host w number route readings received sink s
  cases h with
  | atOnce h hends =>
    rw [h] at hserve
    rcases hserve with ⟨message, hrefused, hanswer⟩ | ⟨request, a, hrequest, ha, hwaits | hanswer⟩
    · exact .inl ⟨message, hrefused _, hanswer⟩
    · exact absurd (congrArg Prod.fst hwaits) hends
    · exact .inr ⟨request, a, hrequest, ha, hanswer⟩
  | afterWaiting h hrequest ha world =>
    rw [h] at hserve
    rcases hserve with ⟨message, _, hwaits⟩ | ⟨_, a', _, _, hwaits | hwaits⟩
    · cases congrArg Prod.fst hwaits
    · obtain rfl : _ = sink := congrArg Prod.snd hwaits
      exact .inr ⟨_, _, hrequest, ha, rfl⟩
    · exact absurd (congrArg Prod.fst hwaits).symm
        (Session.attend_ne_waiting engine host route a' readings sink s.world)

/-- A socket is refused, or its command runs on, or it is answered with a response. -/
theorem answer_refused_or_responds
    (h : Answers engine host w number route readings received sink s world answer) :
    (∃ message, Refused engine host w route readings received world message ∧
      answer = Session.abort message sink) ∨
    (¬∃ message, Refused engine host w route readings received world message) ∧
      ((Endless engine host route readings received world ∧ ∃ events,
          answer = (.executing, (Session.relayed host readings events sink).sink)) ∨
        ¬Endless engine host route readings received world ∧
          ∃ a card events, answer = Session.respond host route a readings card events sink) := by
  rcases answer_cases h with hrefused | ⟨request, a, hrequest, ha, rfl⟩
  · exact .inl hrefused
  have hendless : Endless engine host route readings received world ↔
      Session.RunsOn engine a readings world := by
    simp only [Endless, hrequest, Except.ok.injEq, ha, exists_and_left, exists_eq_left']
  rcases Session.attend_cases engine host route a readings sink world with
    ⟨e, world', hcreate, hanswer⟩ | ⟨sandbox, world', r, hcreate, hcourse⟩
  · exact .inl ⟨_, .container hrequest ha (congrArg Prod.fst hcreate), by rw [hanswer]⟩
  · refine .inr ⟨?_, ?_⟩
    · rintro ⟨message, hrefused⟩
      cases hrefused with
      | opening he => simp [hrequest] at he
      | admission hrequest' he =>
        obtain rfl := Except.ok.inj (hrequest.symm.trans hrequest')
        simp [ha] at he
      | container hrequest' ha' he =>
        obtain rfl := Except.ok.inj (hrequest.symm.trans hrequest')
        obtain rfl := Except.ok.inj (ha.symm.trans ha')
        simp [hcreate] at he
    · rw [hendless]
      rcases hcourse with ⟨hruns, _, hanswer⟩ | ⟨hends, card, _, hanswer⟩
      · exact .inl ⟨hruns, r.events, by rw [hanswer]⟩
      · exact .inr ⟨hends, a, card, r.events, by rw [hanswer]⟩

theorem serve_of_opening_eq {received' : List Incoming} (h : opening received' = opening received) :
    serve engine host w number route received' readings sink s =
      serve engine host w number route received readings sink s := by
  unfold serve
  rw [firstRequest_eq, firstRequest_eq, h]

/-- Nothing but the opening of a socket counts for its answer. -/
theorem answers_of_opening_eq {received' : List Incoming} (hopening : opening received' = opening received)
    (h : Answers engine host w number route readings received sink s world answer) :
    Answers engine host w number route readings received' sink s world answer := by
  cases h with
  | atOnce h hends => exact .atOnce (serve_of_opening_eq hopening ▸ h) hends
  | afterWaiting h hrequest ha world =>
    rw [firstRequest_eq, ← hopening, ← firstRequest_eq] at hrequest
    exact .afterWaiting (serve_of_opening_eq hopening ▸ h) hrequest ha world

/-- An admitted session that finds a free slot is attended to at once. -/
theorem answers_of_admitted {request : Request} {a : Admitted} (hfree : 0 < s.slots.free)
    (hrequest : firstRequest received = .ok request)
    (ha : Session.admission host route readings.started request = .ok a) :
    Answers engine host w number route readings received sink s s.world
      (Session.attend engine host route a readings sink s.world).1 := by
  rcases Session.run_of_free host route readings sink engine number request hfree with
    ⟨error, hrefused, _⟩ | ⟨a', slots, ha', hrun, _⟩
  · rw [ha] at hrefused
    cases hrefused
  · obtain rfl := Except.ok.inj (ha.symm.trans ha')
    have hserve : serve engine host w number route received readings sink s =
        Session.run engine host number route request readings sink s := by
      rw [serve, hrequest]
    exact .atOnce (hserve.trans hrun) (Session.attend_ne_waiting engine host route a readings sink s.world)

end Socket

/-! ### A submission with a time limit and without one -/

namespace Bundle

/-- The action with another time limit, where zero is none. -/
def makeWithin (seconds : Nat) : Action :=
  { makeGrade with limits := { timeout := seconds } }

def typeWithin (seconds : Nat) : ProblemType :=
  { python3 with actions := .ofList [("grade", makeWithin seconds)] }

def within (seconds : Nat) : Bundle :=
  { fizzbuzz [{ step := 1, problemType := "python3" }] with problemType := some (typeWithin seconds) }

def admittedWithin (seconds : Nat) : Admitted :=
  { fizzbuzzAdmitted { step := 1, problemType := "python3" } [] [115] with
    problemType := typeWithin seconds
    problemTypeSignature := (typeWithin seconds).sign [115]
    action := makeWithin seconds }

theorem within_admits (seconds : Nat) : ((within seconds).sign [115]).Admits ⟨"python3", "grade"⟩ [115]
    "localhost" (.ofSeconds 30) (admittedWithin seconds) := by
  have haction : (typeWithin seconds).actions.find? "grade" = some (makeWithin seconds) := by
    simp [typeWithin, KeyMap.find?_ofList]
  have hhost : (within seconds).hostname ≠ "" := by simp [within, fizzbuzz]
  have huser : 1 ≤ (within seconds).userId := by simp [within, fizzbuzz]
  have hrecent : distance (.ofSeconds 30) fizzbuzzCommit.updatedAt ≤ maxAge := by decide
  exact admits_sign rfl rfl (List.cons_ne_nil _ _) rfl hhost huser haction hrecent rfl rfl rfl

theorem within_fits {seconds : Nat} (h : seconds < Limits.bound) : ((within seconds).sign [115]).Fits where
  problemType := by
    rintro _ ⟨⟩ p hp
    obtain rfl : p = ("grade", makeWithin seconds) := List.mem_singleton.1 hp
    have hvalues : (makeWithin seconds).limits.values = [0, 0, seconds, 0, 0, 0, 0] := rfl
    have hzero : 0 < Limits.bound := by decide
    simp [Action.Fits, Limits.Fits, hvalues, h, hzero]
  problem := by
    rintro _ ⟨⟩
    exact ⟨by decide, by decide, by decide⟩
  steps := by
    intro s hs
    obtain rfl : s = { step := 1, problemType := "python3" } := List.mem_singleton.1 hs
    exact ⟨by decide, by decide, by decide +kernel⟩
  userId := by
    have huser : Json.IsInt64 42 := by decide
    exact huser
  commit := by
    rintro _ ⟨⟩
    exact {
      id := by decide, assignmentId := by decide, problemId := by decide, step := by decide
      transcript := by simp [fizzbuzzCommit], createdAt := by decide, updatedAt := by decide
      score := by decide +kernel }

end Bundle

namespace Socket

/-- What a client sends that opens a socket with such a submission, and then goes on. -/
def sentWithin (seconds : Nat) : List Incoming :=
  [.message .ping,
    .message (.text (Request.toJson { bundle := some ((Bundle.within seconds).sign [115]) }).print),
    .message (.text "late")]

theorem firstRequest_sentWithin {seconds : Nat} (h : seconds < Limits.bound) :
    firstRequest (sentWithin seconds) = .ok { bundle := some ((Bundle.within seconds).sign [115]) } := by
  let request : Request := { bundle := some ((Bundle.within seconds).sign [115]) }
  have hfits : request.Fits :=
    { userId := fun _ hid => by cases hid
      bundle := fun _ hbundle => Option.some.inj hbundle ▸ Bundle.within_fits h }
  have hread : (Json.ofText? request.toJson.print).bind (Request.ofJson? 0) = some request :=
    Wire.decode?_print request.writable_toJson (Request.ofJson?_toJson (by decide) hfits)
  change readRequest (Json.ofText? request.toJson.print) = .ok request
  rw [readRequest, hread]

/-- How the session of such a socket goes when its command does not end by itself. -/
theorem answers_sentWithin {seconds : Nat} (h : seconds < Limits.bound) :
    let host : Host := { secret := [115], hostname := "localhost" }
    let readings : Session.Readings := ⟨.ofSeconds 30, fun _ => .ofSeconds 30, 30, .ofSeconds 1, 0⟩
    let s : Host.State Unit := { slots := { capacity := 1 }, world := ⟨(), {}⟩ }
    Answers Session.stalled host ⟨"breach", "unreadable"⟩ 0 ⟨"python3", "grade"⟩ readings
      (sentWithin seconds) .reliable s s.world
      (Session.attend Session.stalled host ⟨"python3", "grade"⟩ (Bundle.admittedWithin seconds) readings
        .reliable s.world).1 := by
  intro host readings s
  have hfree : 0 < s.slots.free := by decide
  exact answers_of_admitted hfree (firstRequest_sentWithin h)
    (Bundle.admission_of_admits (Bundle.within_admits seconds))

end Socket

end Proctor
