import Proctor.Proofs.ActionVerdict
import Proctor.Session

/-!
The course of an admitted session: it gets no sandbox, or its command runs without an end, or it comes to a
card and leaves its sandbox.

Main statement: `attend_cases`.
-/

namespace Proctor.Session

variable {σ : Type}

/-- The command of an admitted action runs on in its sandbox: its files are there, it has no time limit, and it
does not end. -/
def RunsOn (engine : Engine σ) (a : Admitted) (readings : Readings) (w : World σ) : Prop :=
  ∃ sandbox world r, Sandbox.create engine (order a) readings.draw w = (.ok sandbox, world) ∧
    Running.putFiles engine a.files readings.fileTime { sandbox, world } = (.ok (), r) ∧
    a.action.commandLine ≠ [] ∧ a.action.judge ∈ ["", "xunit", "check"] ∧ a.limits.timeout = 0 ∧
    r.endingOf engine a.action.commandLine = .running

/-- A command with a time limit ends in any case. -/
theorem not_runsOn {a : Admitted} (h : a.limits.timeout ≠ 0) (engine : Engine σ) (readings : Readings)
    (w : World σ) : ¬RunsOn engine a readings w := by
  rintro ⟨_, _, _, _, _, _, _, hunlimited, _⟩
  exact h hunlimited

variable (engine : Engine σ) (host : Host) (route : Route) (a : Admitted) (readings : Readings)

/-- An open sandbox is left without a card only by a command that is run without a time limit. -/
theorem grade_eq_none_iff {r : Running σ} (hopen : r.sandbox.closed = false) :
    (grade engine a readings r).1 = none ↔ ∃ r', r.putFiles engine a.files readings.fileTime = (.ok (), r') ∧
      a.action.commandLine ≠ [] ∧ a.action.judge ∈ ["", "xunit", "check"] ∧ r.sandbox.timeout = 0 ∧
      r'.endingOf engine a.action.commandLine = .running := by
  obtain ⟨hgoes, hclosed⟩ := Running.goes_putFiles engine a.files readings.fileTime r
  unfold grade
  rcases hput : r.putFiles engine a.files readings.fileTime with ⟨result, r'⟩
  rw [hput] at hgoes hclosed
  dsimp only at hgoes hclosed
  cases result with
  | error e => simp
  | ok =>
    have hnone := Grading.run_eq_none_iff engine readings.elapsed .fresh r' a.action
    rw [hclosed, hopen, hgoes.timeout] at hnone
    simpa using hnone

theorem perform_fst (r : Running σ) : (perform engine a readings r).1 = (grade engine a readings r).1 := by
  unfold perform
  rcases grade engine a readings r with ⟨_ | card, r'⟩ <;> rfl

/-- An admitted session is aborted without a sandbox, or its command runs on and the client has the events so
far, or it is answered with its card. -/
theorem attend_cases (sink : Sink) (w : World σ) :
    (∃ e world, Sandbox.create engine (order a) readings.draw w = (.error e, world) ∧
      attend engine host route a readings sink w =
        (abort s!"creating container: {e.message}" sink, world)) ∨
    ∃ sandbox world r, Sandbox.create engine (order a) readings.draw w = (.ok sandbox, world) ∧
      ((RunsOn engine a readings w ∧ perform engine a readings { sandbox, world } = (none, r) ∧
        attend engine host route a readings sink w =
          ((.executing, (relayed host readings r.events sink).sink), r.world)) ∨
      ¬RunsOn engine a readings w ∧ ∃ card,
        perform engine a readings { sandbox, world } = (some card, r) ∧
        attend engine host route a readings sink w =
          (respond host route a readings card r.events sink, r.leave)) := by
  rcases hcreate : Sandbox.create engine (order a) readings.draw w with ⟨_ | sandbox, world⟩
  · exact .inl ⟨_, _, rfl, by rw [attend, hcreate]⟩
  · right
    have hopened := Sandbox.opened_of_create hcreate
    have hnone : (perform engine a readings { sandbox, world }).1 = none ↔ RunsOn engine a readings w := by
      have hgrade := grade_eq_none_iff engine a readings (r := { sandbox, world }) (by rw [hopened]; rfl)
      have htimeout : sandbox.timeout = a.limits.timeout := by rw [hopened]; rfl
      rw [perform_fst, hgrade, RunsOn, htimeout]
      simp [hcreate]
    rcases hperform : perform engine a readings { sandbox, world } with ⟨_ | card, r⟩
    · refine ⟨sandbox, world, r, rfl, .inl ⟨hnone.1 (by rw [hperform]), hperform, ?_⟩⟩
      simp only [attend, hcreate, hperform]
    · refine ⟨sandbox, world, r, rfl, .inr ⟨fun h => ?_, card, hperform, ?_⟩⟩
      · rw [hperform] at hnone
        cases hnone.2 h
      · simp only [attend, hcreate, hperform]

/-- The state in which a session stands is settled by its sandbox alone. -/
theorem attend_executing_iff (sink : Sink) (w : World σ) :
    (attend engine host route a readings sink w).1.1 = .executing ↔ RunsOn engine a readings w := by
  rcases attend_cases engine host route a readings sink w with
    ⟨e, world, hcreate, h⟩ | ⟨sandbox, world, r, hcreate, ⟨hruns, _, h⟩ | ⟨hends, card, _, h⟩⟩
  · have hnot : ¬RunsOn engine a readings w := by
      rintro ⟨sandbox, world', r, hcreate', _⟩
      rw [hcreate] at hcreate'
      cases hcreate'
    simp [h, abort, hnot]
  · simp [h, hruns]
  · simp [h, respond, hends]

theorem attend_ne_waiting (sink : Sink) (w : World σ) :
    (attend engine host route a readings sink w).1.1 ≠ .waiting := by
  rcases attend_cases engine host route a readings sink w with
    ⟨_, _, _, h⟩ | ⟨_, _, _, _, ⟨_, _, h⟩ | ⟨_, _, _, h⟩⟩ <;> simp [h, abort, respond]

end Proctor.Session
