import Proctor.Proofs.Admission
import Proctor.Proofs.SessionCourse
import Proctor.Proofs.Uids

/-!
What a session leaves behind. However it ends, its slot is free again, its user id is back in the pool, and
its container is removed; a request that is refused has taken none of them. What does not end is a command
without a time limit, and its session with it.

Main statement: `nothing_is_left`.
-/

namespace Proctor

variable {σ : Type}

/-! ### Slots and user ids -/

namespace Slots

variable {α : Type} {s : Slots α}

theorem acquire_of_free (h : 0 < s.free) (who : α) :
    (s.acquire who).held = s.held ++ [who] ∧ (s.acquire who).waiting = [] ∧
      (s.acquire who).capacity = s.capacity := by
  have hlt : s.held.length < s.capacity := by unfold free at h; omega
  have hwaiting : s.waiting = [] := by
    by_contra hne
    have hfull := s.held_eq_of_waiting hne
    omega
  rw [acquire, dif_pos hlt]
  exact ⟨rfl, hwaiting, rfl⟩

variable [DecidableEq α]

/-- Where nobody waits a released slot is free. -/
theorem free_release {who : α} (hheld : who ∈ s.held) (hwaiting : s.waiting = []) :
    (s.release who).free = s.free + 1 := by
  have hle := s.held_le
  have hpos := List.length_pos_of_mem hheld
  have hlength := List.length_erase_of_mem hheld
  rw [release, dif_pos hheld]
  split
  · simp only [free, hlength]
    omega
  · rename_i next waiting hnext
    rw [hwaiting] at hnext
    cases hnext

/-- A slot that was free is free again when it has been given back. -/
theorem free_release_acquire (h : 0 < s.free) (who : α) :
    ((s.acquire who).release who).free = s.free := by
  obtain ⟨hheld, hwaiting, hcapacity⟩ := acquire_of_free h who
  have hmem : who ∈ (s.acquire who).held := by simp [hheld]
  rw [free_release hmem hwaiting, free, hheld, hcapacity, List.length_append, List.length_singleton]
  unfold free at h ⊢
  omega

end Slots

/-- A user id that was reserved for a sandbox is out of the pool just as long as there is a sandbox. -/
theorem Sandbox.uids_of_create {e : Engine σ} {order : Order} {draw : Nat} {w world : World σ}
    {result : Except EngineError Sandbox} (h : create e order draw w = (result, world)) :
    match result with
    | .ok sandbox => world.uids.release sandbox.uid = w.uids
    | .error _ => world.uids = w.uids := by
  simp only [create] at h
  split at h
  · cases h
    rfl
  · rename_i uid uids hreserve
    have hback := Uids.release_of_reserve? hreserve
    split at h <;> cases h <;> exact hback

/-! ### Containers in memory -/

namespace Memory

/-- What work in the container of a name leaves as it was. -/
structure Spares (name : String) (m m' : Memory) : Prop where
  within : Within name m m'
  created : m'.created = m.created

theorem Spares.refl (name : String) (m : Memory) : Spares name m m :=
  ⟨.refl name m, rfl⟩

theorem spares_after {name : String} {m : Memory} (h : m.mishaps = {}) (uid : Nat) (work : Work) :
    Spares name m (work.after engine name uid m) := by
  cases work with
  | copyIn archive =>
    rw [Work.after, engine_copyIn h]
    refine ⟨within_copyIn name archive m, ?_⟩
    unfold Memory.copyIn
    repeat' split
    all_goals rfl
  | exec command =>
    rw [Work.after, engine_exec h]
    refine ⟨within_exec name command m, ?_⟩
    unfold Memory.exec
    dsimp only
    repeat' split
    all_goals rfl
  | copyOut =>
    rw [Work.after, engine_copyOut h]
    refine ⟨within_copyOut name uid m, ?_⟩
    unfold Memory.copyOut
    split <;> rfl

/-- Only the container that was created is new, and only what had its name is gone. -/
structure Opens (c : Container) (m m' : Memory) : Prop where
  mishaps : m'.mishaps = {}
  created : m'.created = m.created ++ [c]
  home : ∀ name, name ≠ c.name → m'.homes.find? name = m.homes.find? name

theorem Opens.spares {c : Container} {m m' m'' : Memory} (h : Opens c m m')
    (h' : Spares c.name m' m'') : Opens c m m'' where
  mishaps := h'.within.mishaps.trans h.mishaps
  created := h'.created.trans h.created
  home name hne := (h'.within.home name hne).trans (h.home name hne)

theorem Opens.works {c : Container} {m m' : Memory} (h : Opens c m m') (uid : Nat)
    (works : List Work) : Opens c m (works.foldl (Work.after engine c.name uid) m') := by
  induction works generalizing m' with
  | nil => exact h
  | cons work works ih => exact ih (h.spares (spares_after h.mishaps uid work))

/-- A container is created under every name, unless the engine is unavailable. -/
theorem createContainer_cases {m m' : Memory} (h : m.mishaps = {}) {c : Container}
    {result : Except EngineError Unit}
    (hcreate : Sandbox.createContainer engine c m = (result, m')) :
    match result with
    | .ok () => Opens c m m'
    | .error _ => m' = m := by
  by_cases hfails : m.failsCreate
  · have hone : engine.create c m = (.error unavailable, m) := by
      simp [engine_create h, create, hfails]
    rw [Sandbox.createContainer, hone] at hcreate
    cases hcreate
    rfl
  · have fresh {m : Memory} (h : m.mishaps = {}) (hfails : ¬m.failsCreate)
        (hfree : m.homes.find? c.name = none) :
        engine.create c m = (.ok (), { m with
          homes := m.homes.insert c.name .empty, created := m.created ++ [c] }) := by
      simp [engine_create h, create, hfails, KeyMap.contains, hfree]
    cases hhome : m.homes.find? c.name with
    | none =>
      rw [Sandbox.createContainer, fresh h hfails hhome] at hcreate
      cases hcreate
      exact ⟨h, rfl, fun name hne => KeyMap.find?_insert_other _ _ _ _ hne⟩
    | some home =>
      have hone : engine.create c m = (.error (.nameInUse c.name), m) := by
        simp [engine_create h, create, hfails, KeyMap.contains, hhome]
      have hremove : (engine.remove c.name m).2 = { m with
          homes := m.homes.erase c.name, removed := m.removed ++ [c.name] } := by
        rw [engine_remove h, remove]
      have hfree : (m.homes.erase c.name).find? c.name = none := by
        rw [KeyMap.find?_erase, if_pos rfl]
      rw [Sandbox.createContainer, hone] at hcreate
      simp only [hremove] at hcreate
      rw [fresh (m := { m with homes := m.homes.erase c.name, removed := m.removed ++ [c.name] })
        h hfails hfree] at hcreate
      cases hcreate
      refine ⟨h, rfl, fun name hne => ?_⟩
      rw [KeyMap.find?_insert_other _ _ _ _ hne, KeyMap.find?_erase, if_neg hne]

/-- No container is there that was not there before, and none of those that were created since. -/
structure NothingNew (m m' : Memory) : Prop where
  created : ∃ containers, m'.created = m.created ++ containers ∧
    ∀ c ∈ containers, m'.homes.find? c.name = none
  home : ∀ name home, m'.homes.find? name = some home → m.homes.find? name = some home

theorem NothingNew.refl (m : Memory) : NothingNew m m :=
  ⟨⟨[], by simp⟩, fun _ _ => id⟩

/-- Once a container has been removed there is nothing new. -/
theorem Opens.nothingNew {c : Container} {m m' : Memory} (h : Opens c m m') :
    NothingNew m (engine.remove c.name m').2 := by
  rw [engine_remove h.mishaps, remove]
  refine ⟨⟨[c], h.created, ?_⟩, ?_⟩
  · intro other hother
    rw [List.mem_singleton.1 hother, KeyMap.find?_erase, if_pos rfl]
  · intro name home hhome
    rw [KeyMap.find?_erase] at hhome
    split at hhome
    · cases hhome
    · rename_i hne
      rwa [h.home name hne] at hhome

end Memory

/-- Creating a sandbox that fails leaves the engine as it was. -/
theorem Sandbox.create_in_memory {order : Order} {draw : Nat} {w world : World Memory}
    (h : w.engine.mishaps = {}) {result : Except EngineError Sandbox}
    (hcreate : create Memory.engine order draw w = (result, world)) :
    match result with
    | .ok sandbox => Memory.Opens (order.container sandbox.uid) w.engine world.engine
    | .error _ => world.engine = w.engine := by
  simp only [create] at hcreate
  split at hcreate
  · cases hcreate
    rfl
  · rename_i uid uids hreserve
    rcases hcontainer : createContainer Memory.engine (order.container uid) w.engine with ⟨result, m⟩
    have hcases := Memory.createContainer_cases h hcontainer
    rw [hcontainer] at hcreate
    cases result <;> cases hcreate <;> exact hcases

/-! ### What a session does in its sandbox -/

theorem Running.closed_shutDown (e : Engine σ) (r : Running σ) :
    (r.shutDown e).sandbox.closed = true := by
  unfold shutDown
  split
  · assumption
  · rfl

namespace Grading

theorem goes_judgeReport (e : Engine σ) (add : ReportCard → Bytes → Span → ReportCard) (elapsed : Span)
    (result : Except EngineError Output) (card : ReportCard) (r : Running σ) :
    r.Goes e (judgeReport e add elapsed result card r).2 := by
  have hfiles := (Running.goes_getFiles e [reportFile] r).1
  unfold judgeReport
  split
  · exact .refl e r
  · split
    · exact .refl e r
    · rcases hget : r.getFiles e [reportFile] with ⟨files, r'⟩
      rw [hget] at hfiles
      cases files with
      | error error => exact hfiles
      | ok files => exact hfiles

theorem goes_judged (e : Engine σ) (elapsed : Span) (card : ReportCard) (r : Running σ) (line : String)
    (result : Except EngineError Output) (judge : Judge) :
    r.Goes e (judged e elapsed card r line result judge).2 := by
  cases judge with
  | status => exact .refl e r
  | xunit => exact goes_judgeReport ..
  | check => exact goes_judgeReport ..

theorem goes_run (e : Engine σ) (a : Action) (elapsed : Span) (card : ReportCard) (r : Running σ) :
    r.Goes e (run e a elapsed card r).2 := by
  have hran := Running.goes_exec e a.commandLine r
  by_cases hcommand : a.commandLine = []
  · simp only [run, hcommand, List.isEmpty_nil, if_true]
    exact .refl e r
  cases hjudge : a.judge? with
  | none =>
    simp only [run, List.isEmpty_iff, hcommand, hjudge, if_false]
    exact .refl e r
  | some judge =>
    rw [run_of_judge? e elapsed card r hcommand hjudge]
    rcases hexec : r.exec e a.commandLine with ⟨_ | result, r'⟩
    · rwa [hexec] at hran
    · rw [hexec] at hran
      exact hran.trans (goes_judged e elapsed card r' _ result judge)

end Grading

namespace Session

theorem goes_grade (e : Engine σ) (a : Admitted) (readings : Readings) (r : Running σ) :
    r.Goes e (grade e a readings r).2 := by
  have hput := (Running.goes_putFiles e a.files readings.fileTime r).1
  unfold grade
  rcases h : r.putFiles e a.files readings.fileTime with ⟨result, r'⟩
  rw [h] at hput
  cases result with
  | error error => exact hput
  | ok => exact hput.trans (Grading.goes_run ..)

theorem goes_download (e : Engine σ) (patterns : List String) (r : Running σ) :
    r.Goes e (download e patterns r) := by
  have hfiles := (Running.goes_getFiles e patterns r).1
  unfold download
  split
  · exact .refl e r
  · rcases h : r.getFiles e patterns with ⟨files, r'⟩
    rw [h] at hfiles
    cases files with
    | error error => exact hfiles
    | ok files => exact hfiles.trans (Running.goes_emit ..)

/-- A session that comes to a card ends with its sandbox closed. -/
theorem goes_perform {e : Engine σ} {a : Admitted} {readings : Readings} {r r' : Running σ}
    {card : ReportCard} (h : perform e a readings r = (some card, r')) :
    r.Goes e r' ∧ r'.sandbox.closed = true := by
  have hgrade := goes_grade e a readings r
  unfold perform at h
  rcases hgraded : grade e a readings r with ⟨_ | graded, r''⟩
  · simp [hgraded] at h
  · rw [hgraded] at h hgrade
    cases h
    exact ⟨(hgrade.trans (goes_download ..)).trans (Running.goes_shutDown ..), Running.closed_shutDown ..⟩

variable (host : Host) (route : Route) (a : Admitted) (readings : Readings) (sink : Sink)

/-- An admitted session creates no sandbox, or it works in one and, unless its command runs on, has its
container removed; in both cases its user id is back in the pool. -/
theorem attend_world {e : Engine σ} {w : World σ} (h : ¬RunsOn e a readings w) :
    (attend e host route a readings sink w).2.uids = w.uids ∧
    ((∃ error, Sandbox.create e (order a) readings.draw w =
        (.error error, (attend e host route a readings sink w).2)) ∨
      ∃ sandbox world works, Sandbox.create e (order a) readings.draw w = (.ok sandbox, world) ∧
        (attend e host route a readings sink w).2 =
          Running.ended e { sandbox, world } works) := by
  rcases attend_cases e host route a readings sink w with
    ⟨error, world, hcreate, hattend⟩ | ⟨sandbox, world, r, hcreate, ⟨hruns, _⟩ | ⟨_, card, hperform, hattend⟩⟩
  · rw [hattend]
    exact ⟨Sandbox.uids_of_create hcreate, .inl ⟨error, hcreate⟩⟩
  · exact absurd hruns h
  · have hopen : sandbox.closed = false := by
      rw [Sandbox.opened_of_create hcreate]
      rfl
    obtain ⟨hgoes, hclosed⟩ := goes_perform hperform
    obtain ⟨works, hworld⟩ := hgoes.of_open hopen
    rw [if_pos hclosed] at hworld
    have hleave : r.leave = Running.ended e { sandbox, world } works := by
      rw [Running.leave, if_pos hclosed, hworld]
    rw [hattend]
    refine ⟨?_, .inr ⟨sandbox, world, works, hcreate, hleave⟩⟩
    exact (hgoes.uids_leave hopen).trans (Sandbox.uids_of_create hcreate)

theorem nothingNew_attend {w : World Memory} (h : w.engine.mishaps = {})
    (hends : ¬RunsOn Memory.engine a readings w) :
    Memory.NothingNew w.engine
      (attend Memory.engine host route a readings sink w).2.engine := by
  rcases (attend_world host route a readings sink hends).2 with
    ⟨error, hcreate⟩ | ⟨sandbox, world, works, hcreate, hworld⟩
  · rw [Sandbox.create_in_memory h hcreate]
    exact .refl w.engine
  · obtain ⟨uid, rfl⟩ : ∃ uid, sandbox = (order a).opened uid :=
      ⟨_, Sandbox.opened_of_create hcreate⟩
    have hopens := Sandbox.create_in_memory h hcreate
    rw [hworld]
    exact (hopens.works uid works).nothingNew

theorem attend_responds_or_aborts {e : Engine σ} {w : World σ} (h : ¬RunsOn e a readings w) :
    (attend e host route a readings sink w).1.1 = .responded ∨
      (attend e host route a readings sink w).1.1 = .aborted := by
  rcases attend_cases e host route a readings sink w with
    ⟨_, _, _, hattend⟩ | ⟨_, _, _, _, ⟨hruns, _⟩ | ⟨_, _, _, hattend⟩⟩
  · exact .inr (by rw [hattend]; rfl)
  · exact absurd hruns h
  · exact .inl (by rw [hattend]; rfl)

/-- Where a slot is free, a session is refused at once, or it is admitted and attended to; then its slot is
free again unless its command runs on. -/
theorem run_of_free (e : Engine σ) (number : Nat) (request : Request) {s : Host.State σ}
    (h : 0 < s.slots.free) :
    (∃ error, admission host route readings.started request = .error error ∧
      run e host number route request readings sink s = (abort error.message sink, s)) ∨
      ∃ a slots, admission host route readings.started request = .ok a ∧
        run e host number route request readings sink s =
          ((attend e host route a readings sink s.world).1,
            ⟨slots, (attend e host route a readings sink s.world).2⟩) ∧
        (¬RunsOn e a readings s.world → slots.free = s.slots.free) := by
  have hheld : number ∈ (s.slots.acquire number).held := by
    simp [(Slots.acquire_of_free h number).1]
  unfold run
  cases admission host route readings.started request with
  | error error => exact .inl ⟨error, rfl, rfl⟩
  | ok a =>
    have hruns := attend_executing_iff e host route a readings sink s.world
    refine .inr ⟨a, if (attend e host route a readings sink s.world).1.1 = .executing then
      s.slots.acquire number else (s.slots.acquire number).release number, rfl, if_pos hheld, ?_⟩
    intro hends
    rw [if_neg (mt hruns.1 hends)]
    exact Slots.free_release_acquire h number

/-- A session that finds a free slot goes on for ever exactly when it is admitted and its command runs on
without a time limit. When it ends, as many slots are free and the same user ids are reserved as before; on an
engine that keeps homes in memory no container that it created is left, and no other one is new. A request
that is refused is answered without a look at slots, user ids or engine. -/
theorem nothing_is_left (host : Host) (number : Nat) (route : Route) (request : Request)
    (readings : Readings) (sink : Sink) :
    (∀ (engine : Engine σ) (s : Host.State σ), 0 < s.slots.free →
      let after := run engine host number route request readings sink s
      (after.1.1 = .executing ↔ ∃ a, admission host route readings.started request = .ok a ∧
        RunsOn engine a readings s.world) ∧
      (after.1.1 ≠ .executing → (after.1.1 = .responded ∨ after.1.1 = .aborted) ∧
        after.2.slots.free = s.slots.free ∧ after.2.world.uids = s.world.uids)) ∧
    (∀ s : Host.State Memory, 0 < s.slots.free → s.world.engine.mishaps = {} →
      let after := run Memory.engine host number route request readings sink s
      let m := s.world.engine
      let m' := after.2.world.engine
      after.1.1 ≠ .executing → (∃ containers, m'.created = m.created ++ containers ∧
        ∀ c ∈ containers, m'.homes.find? c.name = none) ∧
      ∀ name home, m'.homes.find? name = some home → m.homes.find? name = some home) ∧
    (∀ error, admission host route readings.started request = .error error →
      ∃ answer : State × Sink, answer.1 = .aborted ∧ ∀ (engine : Engine σ) (s : Host.State σ),
        run engine host number route request readings sink s = (answer, s)) := by
  refine ⟨?_, ?_, ?_⟩
  · intro engine s hfree after
    rcases run_of_free host route readings sink engine number request hfree with
      ⟨error, hrefused, hrun⟩ | ⟨a, slots, hadmitted, hrun, hslots⟩
    · simp [after, hrun, abort, hrefused]
    · have hruns := attend_executing_iff engine host route a readings sink s.world
      simp only [after, hrun, hadmitted, Except.ok.injEq, exists_eq_left']
      refine ⟨hruns, fun hends => ?_⟩
      rw [ne_eq, hruns] at hends
      exact ⟨attend_responds_or_aborts host route a readings sink hends, hslots hends,
        (attend_world host route a readings sink hends).1⟩
  · intro s hfree hmishaps after m m' hends
    have hnew : Memory.NothingNew m m' := by
      rcases run_of_free host route readings sink Memory.engine number request hfree with
        ⟨error, _, hrun⟩ | ⟨a, slots, _, hrun, _⟩
      · simp only [m, m', after, hrun]
        exact .refl _
      · simp only [after, hrun, ne_eq, attend_executing_iff] at hends
        simp only [m, m', after, hrun]
        exact nothingNew_attend host route a readings sink hmishaps hends
    exact ⟨hnew.created, hnew.home⟩
  · intro error hrefused
    refine ⟨abort error.message sink, rfl, ?_⟩
    intro engine s
    rw [run, hrefused]

/-- A command that runs out of time is removed with its container; a request without a bundle leaves
everything as it was. -/
theorem hanging_session_leaves_nothing :
    let host : Host := { secret := [115], hostname := "localhost" }
    let route : Route := ⟨"python3", "grade"⟩
    let readings : Readings := ⟨.ofSeconds 30, fun _ => .ofSeconds 30, 30, .ofSeconds 1, 0⟩
    let s : Host.State Memory := ⟨{ capacity := 1 }, ⟨{ hangs := true }, {}⟩⟩
    (∃ request s', (run Memory.engine host 0 route request readings .reliable s).2 = s' ∧
      s'.slots.free = s.slots.free ∧ s'.world.uids = s.world.uids ∧
      s'.world.engine.created.length = 1 ∧
      ∃ containers, s'.world.engine.created = containers ∧
        ∀ c ∈ containers, s'.world.engine.homes.find? c.name = none) ∧
    admission host route readings.started {} = .error (.missing "commit bundle") ∧
      ∃ answer, answer.1 = .aborted ∧
        run Memory.engine host 0 route {} readings .reliable s = (answer, s) := by
  intro host route readings s
  have hfree : 0 < s.slots.free := by decide
  refine ⟨?_, rfl, ?_⟩
  · obtain ⟨request, hadmission⟩ : ∃ request, admission host route readings.started request =
        .ok (Bundle.fizzbuzzAdmitted { step := 1, problemType := "python3" } [] [115]) :=
      ⟨{ bundle := some ((Bundle.fizzbuzz [{ step := 1, problemType := "python3" }]).sign [115]) },
        Bundle.admission_of_admits
          (Bundle.fizzbuzz_admits { step := 1, problemType := "python3" } [] [115] rfl rfl)⟩
    obtain ⟨hengine, hmemory, -⟩ :=
      nothing_is_left (σ := Memory) host 0 route request readings .reliable
    obtain ⟨hexecuting, hleft⟩ := hengine Memory.engine s hfree
    have hends : (run Memory.engine host 0 route request readings .reliable s).1.1 ≠ .executing := by
      rw [ne_eq, hexecuting, hadmission]
      rintro ⟨a, ha, hruns⟩
      cases ha
      exact not_runsOn (by decide) _ _ _ hruns
    obtain ⟨-, hslots, huids⟩ := hleft hends
    obtain ⟨hcontainers, -⟩ := hmemory s hfree rfl hends
    have hcreated : (run Memory.engine host 0 route request readings .reliable
        s).2.world.engine.created.length = 1 := by
      simp only [run, hadmission]
      rfl
    exact ⟨request, _, rfl, hslots, huids, hcreated, hcontainers⟩
  · obtain ⟨answer, haborted, hsame⟩ :=
      (nothing_is_left (σ := Memory) host 0 route {} readings .reliable).2.2 _ rfl
    exact ⟨answer, haborted, hsame Memory.engine s⟩

end Session

end Proctor
