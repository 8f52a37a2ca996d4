import Proctor.Session.Relay

/-!
What the relay of events does to the sink and to the record. One event changes the record in any case and
the sink only while the client still receives; so over a whole run the record is that of all events, and
the events that get through are those before the first failure.

Main statement: `exists_calls_passAll`.
-/

namespace Proctor

namespace Sink

@[simp] theorem tried_note_sent (frame : Response) (s : Sink) :
    (s.note (.sent frame)).tried = s.tried + 1 := by
  simp [tried]

end Sink

namespace Relay

/-- A client that has gone is sent nothing. -/
theorem pass_of_gone {r : Relay} (h : r.connected = false) (e : Entry) :
    (r.pass e).sink = r.sink ∧ (r.pass e).connected = false := by
  simp [pass, h]

theorem pass_of_sent {r : Relay} (h : r.connected = true) (hsent : r.sink.accepts r.sink.tried = true)
    (e : Entry) : (r.pass e).sink = r.sink.note (.sent (.ofEntry e)) ∧ (r.pass e).connected = true := by
  simp [pass, h, Sink.send, hsent]

theorem pass_of_lost {r : Relay} (h : r.connected = true) (hlost : r.sink.accepts r.sink.tried = false)
    (e : Entry) : (r.pass e).sink = r.sink.note (.lost (.ofEntry e)) ∧ (r.pass e).connected = false := by
  simp [pass, h, Sink.send, hlost]

/-- The record does not depend on the client. -/
theorem transcript_passAll (r : Relay) (emitted : List Entry) :
    (r.passAll emitted).transcript = r.transcript.recordAll emitted := by
  induction emitted generalizing r with
  | nil => rfl
  | cons e rest ih => exact ih (r.pass e)

theorem sink_passAll_of_gone {r : Relay} (h : r.connected = false) (emitted : List Entry) :
    (r.passAll emitted).sink = r.sink := by
  induction emitted generalizing r with
  | nil => rfl
  | cons e rest ih =>
    obtain ⟨hsink, hgone⟩ := pass_of_gone h e
    exact (ih hgone).trans hsink

/-- Of all events those before the first failure get through, the one that fails is lost, and the rest is
not sent. -/
theorem exists_calls_passAll {r : Relay} (h : r.connected = true) (emitted : List Entry) :
    ∃ n, (r.passAll emitted).sink.accepts = r.sink.accepts ∧
      (r.passAll emitted).sink.calls =
        r.sink.calls ++ (emitted.take n).map (fun e => .sent (.ofEntry e)) ++
          (emitted.drop n).head?.toList.map (fun e => .lost (.ofEntry e)) ∧
      (∀ i < n, r.sink.accepts (r.sink.tried + i) = true) ∧
      (n < emitted.length → r.sink.accepts (r.sink.tried + n) = false) := by
  induction emitted generalizing r with
  | nil => exact ⟨0, rfl, by simp [passAll], by simp, by simp⟩
  | cons e rest ih =>
    have hpass : r.passAll (e :: rest) = (r.pass e).passAll rest := rfl
    cases haccepts : r.sink.accepts r.sink.tried with
    | false =>
      obtain ⟨hsink, hgone⟩ := pass_of_lost h haccepts e
      have hrest : (r.passAll (e :: rest)).sink = r.sink.note (.lost (.ofEntry e)) := by
        rw [hpass, sink_passAll_of_gone hgone, hsink]
      exact ⟨0, by rw [hrest]; rfl, by rw [hrest]; simp, by simp, fun _ => haccepts⟩
    | true =>
      obtain ⟨hsink, hconnected⟩ := pass_of_sent h haccepts e
      obtain ⟨n, hsame, hcalls, hbefore, hafter⟩ := ih hconnected
      rw [hsink] at hsame hcalls hbefore hafter
      simp only [Sink.tried_note_sent, Sink.accepts_note, Nat.add_assoc, Nat.add_comm 1] at hbefore hafter
      refine ⟨n + 1, by rw [hpass]; exact hsame, ?_, ?_, ?_⟩
      · rw [hpass, hcalls]
        simp
      · intro i hi
        cases i with
        | zero => exact haccepts
        | succ i => exact hbefore i (by omega)
      · intro hn
        exact hafter (by simpa using hn)

/-- A frame is on the sink only if it was there before or is an event. -/
theorem mem_frames_passAll {r : Relay} (h : r.connected = true) {emitted : List Entry} {frame : Response}
    (hframe : frame ∈ (r.passAll emitted).sink.frames) :
    frame ∈ r.sink.frames ∨ ∃ e, frame = .ofEntry e := by
  obtain ⟨n, -, hcalls, -, -⟩ := exists_calls_passAll h emitted
  obtain ⟨call, hcall, hframe⟩ := List.mem_filterMap.1 hframe
  rw [hcalls, List.mem_append, List.mem_append] at hcall
  rcases hcall with (hcall | hcall) | hcall
  · exact .inl (List.mem_filterMap.2 ⟨call, hcall, hframe⟩)
  · obtain ⟨e, -, rfl⟩ := List.mem_map.1 hcall
    exact .inr ⟨e, (Option.some.inj hframe).symm⟩
  · obtain ⟨e, -, rfl⟩ := List.mem_map.1 hcall
    cases hframe

/-- On a sink that never fails every event gets through, in order. -/
theorem calls_passAll_of_accepts {r : Relay} (h : r.connected = true)
    (hs : ∀ n, r.sink.accepts n = true) (emitted : List Entry) :
    (r.passAll emitted).sink.calls = r.sink.calls ++ emitted.map (fun e => .sent (.ofEntry e)) ∧
      ∀ n, (r.passAll emitted).sink.accepts n = true := by
  obtain ⟨n, hsame, hcalls, -, hafter⟩ := exists_calls_passAll h emitted
  have hall : emitted.length ≤ n := by
    refine Nat.le_of_not_lt fun hlt => ?_
    have hfails := hafter hlt
    rw [hs] at hfails
    cases hfails
  rw [List.take_of_length_le hall, List.drop_of_length_le hall] at hcalls
  exact ⟨by simpa using hcalls, fun n => hsame ▸ hs n⟩

end Relay

end Proctor
