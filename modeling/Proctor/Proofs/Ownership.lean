import Proctor.Proofs.MemoryEngine
import Proctor.Proofs.SharedWorld
import Proctor.Proofs.Uids

/-!
Who owns a container when sessions share an engine that keeps homes in memory. A container is found by its
name alone, and a name that is in use is freed by removing what has it. Main statement: no session touches
the container of another, and its home changes by its own operations only, exactly as long as no sandbox
is created under a name that an open one has.
-/

namespace Proctor

/-- The state of an engine, with the session that created each container that is there, and the pairs of a
session and the owner of a container that it touched without being the owner. -/
structure Owned (σ : Type) where
  state : σ
  owner : String → Option Nat := fun _ => none
  intrusions : List (Nat × Nat) := []

namespace Owned

variable {σ : Type}

def setOwner (name : String) (owner : Option Nat) (s : Owned σ) : Owned σ :=
  { s with owner := fun other => if other = name then owner else s.owner other }

/-- Notes that a session touches the container of a name. -/
def touch (session : Nat) (name : String) (s : Owned σ) : Owned σ :=
  match s.owner name with
  | some owner =>
    if owner = session then s else { s with intrusions := s.intrusions ++ [(session, owner)] }
  | none => s

/-- An engine as a session has it: every call is noted and done. -/
def engine (e : Engine σ) (session : Nat) : Engine (Owned σ) where
  create c s :=
    match e.create c s.state with
    | (.ok (), state) => (.ok (), { s with state }.setOwner c.name (some session))
    | (.error error, state) => (.error error, { s with state })
  copyIn name uid archive s :=
    let (result, state) := e.copyIn name uid archive s.state
    (result, { s.touch session name with state })
  exec name uid command s :=
    let (execution, state) := e.exec name uid command s.state
    (execution, { s.touch session name with state })
  copyOut name uid s :=
    let (result, state) := e.copyOut name uid s.state
    (result, { s.touch session name with state })
  remove name s :=
    match e.remove name s.state with
    | (.ok (), state) => (.ok (), { s.touch session name with state }.setOwner name none)
    | (.error error, state) => (.error error, { s.touch session name with state })

/-- Noting changes nothing. -/
theorem engine_simulates (e : Engine σ) (session : Nat) :
    (engine e session).Simulates e (·.state) := by
  constructor
  case create =>
    intro c s
    simp only [engine]
    cases e.create c s.state with
    | mk result state => cases result <;> rfl
  case remove =>
    intro name s
    simp only [engine]
    cases e.remove name s.state with
    | mk result state => cases result <;> rfl
  all_goals intros; rfl

theorem touch_of_owner {session : Nat} {name : String} {s : Owned σ}
    (h : s.owner name = some session) : s.touch session name = s := by
  simp [touch, h]

theorem touch_of_none {session : Nat} {name : String} {s : Owned σ} (h : s.owner name = none) :
    s.touch session name = s := by
  simp [touch, h]

theorem owner_touch (session : Nat) (name : String) (s : Owned σ) :
    (s.touch session name).owner = s.owner := by
  unfold touch
  split
  · split <;> rfl
  · rfl

theorem intrusions_touch_of_ne {session other : Nat} {name : String} {s : Owned σ}
    (h : s.owner name = some other) (hne : other ≠ session) :
    (s.touch session name).intrusions = s.intrusions ++ [(session, other)] := by
  simp [touch, h, hne]

end Owned

/-- A session owns the container of a name, which is there, and nothing fails without a reason. -/
structure Owns (session : Nat) (name : String) (s : Owned Memory) : Prop where
  mishaps : s.state.mishaps = {}
  owner : s.owner name = some session
  held : (s.state.homes.find? name).isSome

/-- What its owner leaves as it was when it works in a container. -/
structure Works (name : String) (s t : Owned Memory) : Prop where
  intrusions : t.intrusions = s.intrusions
  owner : t.owner = s.owner
  state : Memory.Within name s.state t.state

/-- What its owner leaves as it was when it removes a container. -/
structure Ends (name : String) (s t : Owned Memory) : Prop where
  mishaps : t.state.mishaps = s.state.mishaps
  intrusions : t.intrusions = s.intrusions
  owner : ∀ other, t.owner other = if other = name then none else s.owner other
  home : ∀ other, other ≠ name → t.state.homes.find? other = s.state.homes.find? other

section

variable {session : Nat} {name : String} {s t u : Owned Memory}

theorem Works.refl (name : String) (s : Owned Memory) : Works name s s :=
  ⟨rfl, rfl, .refl name s.state⟩

theorem Works.owns (h : Owns session name s) (hw : Works name s t) : Owns session name t where
  mishaps := hw.state.mishaps.trans h.mishaps
  owner := by rw [hw.owner, h.owner]
  held := hw.state.held h.held

theorem Works.ends (h : Works name s t) (h' : Ends name t u) : Ends name s u where
  mishaps := h'.mishaps.trans h.state.mishaps
  intrusions := h'.intrusions.trans h.intrusions
  owner other := by rw [h'.owner, h.owner]
  home other hne := (h'.home other hne).trans (h.state.home other hne)

theorem works_copyIn (h : Owns session name s) (uid : Nat) (archive : Bytes) :
    Works name s ((Owned.engine Memory.engine session).copyIn name uid archive s).2 := by
  simp only [Owned.engine, Memory.engine_copyIn h.mishaps, Owned.touch_of_owner h.owner]
  exact ⟨rfl, rfl, Memory.within_copyIn name archive s.state⟩

theorem works_exec (h : Owns session name s) (uid : Nat) (command : List String) :
    Works name s ((Owned.engine Memory.engine session).exec name uid command s).2 := by
  simp only [Owned.engine, Memory.engine_exec h.mishaps, Owned.touch_of_owner h.owner]
  exact ⟨rfl, rfl, Memory.within_exec name command s.state⟩

theorem works_copyOut (h : Owns session name s) (uid : Nat) :
    Works name s ((Owned.engine Memory.engine session).copyOut name uid s).2 := by
  simp only [Owned.engine, Memory.engine_copyOut h.mishaps, Owned.touch_of_owner h.owner]
  exact ⟨rfl, rfl, Memory.within_copyOut name uid s.state⟩

theorem ends_remove (h : Owns session name s) :
    Ends name s ((Owned.engine Memory.engine session).remove name s).2 := by
  simp only [Owned.engine, Memory.engine_remove h.mishaps, Memory.remove, Owned.touch_of_owner h.owner]
  refine ⟨rfl, rfl, fun _ => rfl, ?_⟩
  intro other hne
  simp only [Owned.setOwner]
  rw [KeyMap.find?_erase, if_neg hne]

end

/-- The engine as a session has it. -/
abbrev ownEngine (session : Nat) : Engine (Owned Memory) :=
  Owned.engine Memory.engine session

/-- What a session leaves as it was when it creates a container, apart from what is noted. -/
structure Creates (session : Nat) (name : String) (s t : Owned Memory) : Prop where
  mishaps : t.state.mishaps = s.state.mishaps
  failsCreate : t.state.failsCreate = s.state.failsCreate
  owner : ∀ other, t.owner other = if other = name then some session else s.owner other
  home : ∀ other, other ≠ name → t.state.homes.find? other = s.state.homes.find? other
  held : (t.state.homes.find? name).isSome

section

variable (session : Nat) {s : Owned Memory} (hmishaps : s.state.mishaps = {})

include hmishaps

theorem createContainer_of_unavailable (hfails : s.state.failsCreate = true) (c : Container) :
    Sandbox.createContainer (ownEngine session) c s = (.error Memory.unavailable, s) := by
  have hcreate : (ownEngine session).create c s = (.error Memory.unavailable, s) := by
    simp [Owned.engine, Memory.engine_create hmishaps, Memory.create, hfails]
  rw [Sandbox.createContainer, hcreate]
  rfl

theorem create_of_free (hfails : s.state.failsCreate = false) {c : Container}
    (hfree : s.state.homes.find? c.name = none) :
    ∃ t, (ownEngine session).create c s = (.ok (), t) ∧ Creates session c.name s t ∧
      t.intrusions = s.intrusions := by
  refine ⟨{ s with state := { s.state with
      homes := s.state.homes.insert c.name .empty
      created := s.state.created ++ [c] } }.setOwner c.name (some session), ?_, ?_, rfl⟩
  · simp [Owned.engine, Memory.engine_create hmishaps, Memory.create, hfails, KeyMap.contains, hfree]
  · refine ⟨rfl, rfl, fun _ => rfl, ?_, ?_⟩
    · intro other hne
      exact KeyMap.find?_insert_other _ _ _ _ hne
    · exact Option.isSome_iff_exists.2 ⟨_, KeyMap.find?_insert_self _ _ _⟩

theorem create_of_held (hfails : s.state.failsCreate = false) {c : Container} {home : KeyMap Bytes}
    (hheld : s.state.homes.find? c.name = some home) :
    (ownEngine session).create c s = (.error (.nameInUse c.name), s) := by
  simp [Owned.engine, Memory.engine_create hmishaps, Memory.create, hfails, KeyMap.contains, hheld]

/-- A container is removed whoever has it. -/
theorem remove_any (name : String) :
    ∃ t, ((ownEngine session).remove name s).2 = t ∧ t.state.mishaps = {} ∧
      t.state.failsCreate = s.state.failsCreate ∧
      t.intrusions = (s.touch session name).intrusions ∧
      (∀ other, other ≠ name → t.owner other = s.owner other) ∧
      ∀ other, t.state.homes.find? other =
        if other = name then none else s.state.homes.find? other := by
  refine ⟨{ s.touch session name with state := { s.state with
      homes := s.state.homes.erase name
      removed := s.state.removed ++ [name] } }.setOwner name none, ?_, hmishaps, rfl, rfl, ?_, ?_⟩
  · simp [Owned.engine, Memory.engine_remove hmishaps, Memory.remove]
  · intro other hne
    exact (if_neg hne).trans (congrFun (Owned.owner_touch session name s) other)
  · exact KeyMap.find?_erase s.state.homes name

/-- An available engine gives a session the container of a name, whoever has it. -/
theorem createContainer_of_available (hfails : s.state.failsCreate = false) (c : Container)
    (hheld : ∀ owner, s.owner c.name = some owner → (s.state.homes.find? c.name).isSome) :
    ∃ t, Sandbox.createContainer (ownEngine session) c s = (.ok (), t) ∧
      Creates session c.name s t ∧ t.intrusions = (s.touch session c.name).intrusions := by
  cases hhome : s.state.homes.find? c.name with
  | none =>
    have hnone : s.owner c.name = none := by
      cases howner : s.owner c.name with
      | none => rfl
      | some owner => simpa [hhome] using hheld owner howner
    obtain ⟨t, hcreate, hcreates, hintrusions⟩ :=
      create_of_free session hmishaps hfails hhome
    refine ⟨t, ?_, hcreates, ?_⟩
    · rw [Sandbox.createContainer, hcreate]
    · rw [Owned.touch_of_none hnone, hintrusions]
  | some home =>
    -- the name is freed first
    obtain ⟨u, hremove, humishaps, hufails, huintrusions, huowner, huhome⟩ :=
      remove_any session hmishaps c.name
    have hfree : u.state.homes.find? c.name = none := by rw [huhome, if_pos rfl]
    obtain ⟨t, hcreate, hcreates, hintrusions⟩ :=
      create_of_free session humishaps (hufails.trans hfails) hfree
    refine ⟨t, ?_, ⟨?_, hcreates.failsCreate.trans hufails, ?_, ?_, hcreates.held⟩,
      hintrusions.trans huintrusions⟩
    · rw [Sandbox.createContainer, create_of_held session hmishaps hfails hhome]
      simp only [hremove, hcreate]
    · rw [hcreates.mishaps, humishaps, hmishaps]
    · intro other
      rw [hcreates.owner]
      by_cases hown : other = c.name
      · rw [if_pos hown, if_pos hown]
      · rw [if_neg hown, if_neg hown, huowner other hown]
    · intro other hne
      rw [hcreates.home other hne, huhome, if_neg hne]

end

/-- How an open sandbox and the engine come out of an operation: still open, or closed with its container
removed. -/
structure Running.Continues (r r' : Running (Owned Memory)) : Prop where
  name : r'.sandbox.name = r.sandbox.name
  engine : r'.sandbox.closed = false ∧ Works r.sandbox.name r.world.engine r'.world.engine ∨
    r'.sandbox.closed = true ∧ Ends r.sandbox.name r.world.engine r'.world.engine

namespace Running

variable {session : Nat} {r : Running (Owned Memory)}

theorem continues_putFiles (hopen : r.sandbox.closed = false)
    (h : Owns session r.sandbox.name r.world.engine) (files : KeyMap Bytes) (mtime : Nat) :
    Continues r (r.putFiles (ownEngine session) files mtime).2 := by
  have hsame : Continues r r := ⟨rfl, .inl ⟨hopen, .refl _ _⟩⟩
  unfold putFiles
  by_cases hempty : files.isEmpty
  · rw [if_pos hempty]
    exact hsame
  · rw [if_neg hempty, if_neg (by simp [hopen])]
    cases packed files r.sandbox.uid mtime with
    | error e => exact hsame
    | ok archive => exact ⟨rfl, .inl ⟨hopen, works_copyIn h r.sandbox.uid archive⟩⟩

theorem continues_shutDown (hopen : r.sandbox.closed = false)
    (h : Owns session r.sandbox.name r.world.engine) :
    Continues r (r.shutDown (ownEngine session)) := by
  rw [shutDown, if_neg (by simp [hopen])]
  exact ⟨rfl, .inr ⟨rfl, ends_remove h⟩⟩

theorem continues_exec (hopen : r.sandbox.closed = false)
    (h : Owns session r.sandbox.name r.world.engine) (command : List String) :
    Continues r (r.exec (ownEngine session) command).2 := by
  have hworks := works_exec h r.sandbox.uid command
  simp only [exec, hopen, Bool.false_eq_true, if_false]
  split
  · exact ⟨rfl, .inl ⟨hopen, hworks⟩⟩
  · exact ⟨rfl, .inl ⟨hopen, hworks⟩⟩
  · split
    · exact ⟨rfl, .inl ⟨hopen, hworks⟩⟩
    · -- the command has run out of time, and the sandbox is shut down
      rw [shutDown, if_neg (by simp [emit, hopen])]
      exact ⟨rfl, .inr ⟨rfl, hworks.ends (ends_remove (hworks.owns h))⟩⟩

theorem continues_getFiles (hopen : r.sandbox.closed = false)
    (h : Owns session r.sandbox.name r.world.engine) (patterns : List String) :
    Continues r (r.getFiles (ownEngine session) patterns).2 := by
  have hsame : Continues r r := ⟨rfl, .inl ⟨hopen, .refl _ _⟩⟩
  have hworks := works_copyOut h r.sandbox.uid
  rw [getFiles_eq]
  by_cases hempty : patterns.isEmpty
  · rw [if_pos hempty]
    exact hsame
  · rw [if_neg hempty]
    simp only [snapshot, hopen, Bool.false_eq_true, if_false]
    split
    · exact hsame
    · split
      · exact ⟨rfl, .inl ⟨hopen, hworks⟩⟩
      · exact ⟨rfl, .inl ⟨hopen, hworks⟩⟩

/-- A closed sandbox has nothing to do with the engine any more. -/
theorem putFiles_of_closed (hclosed : r.sandbox.closed = true) (engine : Engine (Owned Memory))
    (files : KeyMap Bytes) (mtime : Nat) : (r.putFiles engine files mtime).2 = r := by
  unfold putFiles
  by_cases hempty : files.isEmpty <;> simp [hempty, hclosed]

theorem shutDown_of_closed (hclosed : r.sandbox.closed = true) (engine : Engine (Owned Memory)) :
    r.shutDown engine = r := by
  rw [shutDown, if_pos hclosed]

theorem exec_of_closed (hclosed : r.sandbox.closed = true) (engine : Engine (Owned Memory))
    (command : List String) : (r.exec engine command).2 = r := by
  rw [exec, if_pos hclosed]

theorem getFiles_of_closed (hclosed : r.sandbox.closed = true) (engine : Engine (Owned Memory))
    (patterns : List String) : (r.getFiles engine patterns).2 = r := by
  rw [getFiles_eq, snapshot]
  by_cases hempty : patterns.isEmpty
  · simp [hempty]
  · cases r.sandbox.snapshot <;> simp [hempty, hclosed]

end Running

namespace Shared

/-- No session has touched what is not its own so far, and the owners are those whose sandboxes are open. -/
structure Sound (s : Shared (Owned Memory)) : Prop where
  mishaps : s.world.engine.state.mishaps = {}
  owner : ∀ name session, s.world.engine.owner name = some session ↔
    ∃ sandbox, s.sandboxes session = some sandbox ∧ sandbox.closed = false ∧ sandbox.name = name
  held : ∀ name session, s.world.engine.owner name = some session →
    (s.world.engine.state.homes.find? name).isSome

/-- The home of the container that has a name. -/
def home (s : Shared (Owned Memory)) (name : String) : Option (KeyMap Bytes) :=
  s.world.engine.state.homes.find? name

/-- An operation leaves alone what other sessions have: it touches no container that another one created,
and changes no home of an open sandbox but its own. -/
structure Respects (s : Shared (Owned Memory)) (session : Nat) (operation : Operation) : Prop where
  intrusions : (s.step ownEngine session operation).world.engine.intrusions =
    s.world.engine.intrusions
  home : ∀ other sandbox, other ≠ session → s.sandboxes other = some sandbox →
    sandbox.closed = false →
    (s.step ownEngine session operation).home sandbox.name = s.home sandbox.name

/-- An operation creates a sandbox under a name that an open one has, and gets as far as to be told so: it is
the first of its session, a user id is free, and the engine is available. -/
def Collides (s : Shared (Owned Memory)) (session : Nat) : Operation → Prop
  | .create order draw =>
    s.sandboxes session = none ∧ (s.world.uids.reserve? draw).isSome ∧
      s.world.engine.state.failsCreate = false ∧
      ∃ other sandbox, s.sandboxes other = some sandbox ∧ sandbox.closed = false ∧
        sandbox.name = order.name
  | _ => False

variable {s : Shared (Owned Memory)} {session : Nat}

theorem Sound.owns (h : s.Sound) {sandbox : Sandbox} (hsandbox : s.sandboxes session = some sandbox)
    (hopen : sandbox.closed = false) : Owns session sandbox.name s.world.engine := by
  have howner := (h.owner sandbox.name session).2 ⟨sandbox, hsandbox, hopen, rfl⟩
  exact ⟨h.mishaps, howner, h.held _ _ howner⟩

/-- Two open sandboxes have different names. -/
theorem Sound.name_ne (h : s.Sound) {other : Nat} {sandbox sandbox' : Sandbox}
    (hsandbox : s.sandboxes session = some sandbox) (hopen : sandbox.closed = false)
    (hsandbox' : s.sandboxes other = some sandbox') (hopen' : sandbox'.closed = false)
    (hne : other ≠ session) : sandbox'.name ≠ sandbox.name := by
  intro hname
  have howner := (h.owns hsandbox hopen).owner
  have howner' := (h.owns hsandbox' hopen').owner
  rw [hname, howner] at howner'
  exact hne (Option.some.inj howner').symm

/-- Without the notes a run is one on the engine itself. -/
theorem run_without_notes (s : Shared (Owned Memory)) (run : List (Nat × Operation)) :
    (run.foldl (fun s op => s.step ownEngine op.1 op.2) s).map (·.state) =
      run.foldl (fun s op => s.step (fun _ => Memory.engine) op.1 op.2) (s.map (·.state)) := by
  induction run generalizing s with
  | nil => rfl
  | cons op run ih =>
    rw [List.foldl_cons, List.foldl_cons, ih,
      step_map fun session => Owned.engine_simulates Memory.engine session]

/-- Working in a closed sandbox changes nothing. -/
theorem use_of_closed {act : Running (Owned Memory) → Running (Owned Memory)} {sandbox : Sandbox}
    (hsandbox : s.sandboxes session = some sandbox)
    (hact : act { sandbox, world := s.world } = { sandbox, world := s.world }) :
    s.use act session = s := by
  simp only [use, hsandbox, hact, put]
  congr 1
  funext other
  by_cases h : other = session
  · rw [if_pos h, h, hsandbox]
  · rw [if_neg h]

/-- Working in an open sandbox keeps the state sound. -/
theorem sound_put_of_works (h : s.Sound) {sandbox sandbox' : Sandbox} {w : World (Owned Memory)}
    (hsandbox : s.sandboxes session = some sandbox) (hopen : sandbox.closed = false)
    (hstill : sandbox'.closed = false) (hname : sandbox'.name = sandbox.name)
    (hworks : Works sandbox.name s.world.engine w.engine) : (s.put session sandbox' w).Sound := by
  have howners : (s.put session sandbox' w).world.engine.owner = s.world.engine.owner := hworks.owner
  refine ⟨hworks.state.mishaps.trans h.mishaps, ?_, ?_⟩
  · intro name other
    rw [howners, h.owner]
    by_cases hother : other = session
    · subst hother
      rw [sandboxes_put_self, hsandbox]
      simp [hopen, hstill, hname]
    · rw [sandboxes_put_other _ _ _ hother]
  · intro name other howner
    rw [howners] at howner
    have hheld := h.held name other howner
    by_cases hown : name = sandbox.name
    · subst hown
      exact hworks.state.held hheld
    · rw [← hworks.state.home name hown] at hheld
      exact hheld

/-- Closing a sandbox keeps the state sound. -/
theorem sound_put_of_ends (h : s.Sound) {sandbox sandbox' : Sandbox} {w : World (Owned Memory)}
    (hsandbox : s.sandboxes session = some sandbox) (hopen : sandbox.closed = false)
    (hclosed : sandbox'.closed = true) (hends : Ends sandbox.name s.world.engine w.engine) :
    (s.put session sandbox' w).Sound := by
  have howners (name : String) : (s.put session sandbox' w).world.engine.owner name =
      if name = sandbox.name then none else s.world.engine.owner name :=
    hends.owner name
  refine ⟨hends.mishaps.trans h.mishaps, ?_, ?_⟩
  · intro name other
    rw [howners]
    by_cases hother : other = session
    · subst hother
      rw [sandboxes_put_self]
      by_cases hown : name = sandbox.name
      · simp [hown, hclosed]
      · rw [if_neg hown, h.owner, hsandbox]
        simp [hclosed, Ne.symm hown]
    · rw [sandboxes_put_other _ _ _ hother]
      by_cases hown : name = sandbox.name
      · subst hown
        rw [if_pos rfl]
        constructor
        · intro hnone
          cases hnone
        · rintro ⟨other', hsandbox', hopen', hname'⟩
          exact absurd hname' (h.name_ne hsandbox hopen hsandbox' hopen' hother)
      · rw [if_neg hown, h.owner]
  · intro name other howner
    rw [howners] at howner
    by_cases hown : name = sandbox.name
    · rw [if_pos hown] at howner
      cases howner
    · rw [if_neg hown] at howner
      have hheld := h.held name other howner
      rw [← hends.home name hown] at hheld
      exact hheld

/-- Working in an open sandbox keeps the state sound and leaves the others alone. -/
theorem sound_use (h : s.Sound) {act : Running (Owned Memory) → Running (Owned Memory)}
    {sandbox : Sandbox} (hsandbox : s.sandboxes session = some sandbox)
    (hopen : sandbox.closed = false)
    (hact : Running.Continues { sandbox, world := s.world } (act { sandbox, world := s.world })) :
    (s.use act session).Sound ∧
      (s.use act session).world.engine.intrusions = s.world.engine.intrusions ∧
      ∀ name, name ≠ sandbox.name → (s.use act session).home name = s.home name := by
  have huse : s.use act session =
      s.put session (act { sandbox, world := s.world }).sandbox (act { sandbox, world := s.world }).world := by
    simp only [use, hsandbox]
  rw [huse]
  generalize act { sandbox, world := s.world } = r at hact
  obtain ⟨hname, ⟨hstill, hworks⟩ | ⟨hclosed, hends⟩⟩ := hact
  · exact ⟨sound_put_of_works h hsandbox hopen hstill hname hworks, hworks.intrusions,
      hworks.state.home⟩
  · exact ⟨sound_put_of_ends h hsandbox hopen hclosed hends, hends.intrusions, hends.home⟩

/-- An operation in a sandbox, on a sound state, is one in an open sandbox or changes nothing. -/
theorem sound_step_use (h : s.Sound) {act : Running (Owned Memory) → Running (Owned Memory)}
    (hclosed : ∀ r : Running (Owned Memory), r.sandbox.closed = true → act r = r)
    (hopen : ∀ r : Running (Owned Memory), r.sandbox.closed = false →
      Owns session r.sandbox.name r.world.engine → r.Continues (act r)) :
    (s.use act session).Sound ∧
      (s.use act session).world.engine.intrusions = s.world.engine.intrusions ∧
      ∀ other sandbox, other ≠ session → s.sandboxes other = some sandbox → sandbox.closed = false →
        (s.use act session).home sandbox.name = s.home sandbox.name := by
  cases hsandbox : s.sandboxes session with
  | none =>
    have hsame : s.use act session = s := by simp only [use, hsandbox]
    rw [hsame]
    exact ⟨h, rfl, fun _ _ _ _ _ => rfl⟩
  | some sandbox =>
    cases hstate : sandbox.closed with
    | true =>
      rw [use_of_closed hsandbox (hclosed _ hstate)]
      exact ⟨h, rfl, fun _ _ _ _ _ => rfl⟩
    | false =>
      obtain ⟨hsound, hintrusions, hhome⟩ :=
        sound_use h hsandbox hstate (hopen _ hstate (h.owns hsandbox hstate))
      refine ⟨hsound, hintrusions, ?_⟩
      intro other sandbox' hne hsandbox' hopen'
      exact hhome _ (h.name_ne hsandbox hstate hsandbox' hopen' hne)

/-- A creation comes to nothing, or it gets the container of its name from whoever has it. -/
theorem step_create_cases (h : s.Sound) (session : Nat) (order : Sandbox.Order) (draw : Nat) :
    (¬(s.sandboxes session = none ∧ (s.world.uids.reserve? draw).isSome ∧
        s.world.engine.state.failsCreate = false) ∧
      ∃ uids, s.step ownEngine session (.create order draw) =
        { s with world := ⟨s.world.engine, uids⟩ }) ∨
    ((s.sandboxes session = none ∧ (s.world.uids.reserve? draw).isSome ∧
        s.world.engine.state.failsCreate = false) ∧
      ∃ uid sandbox t uids, s.world.uids.reserve? draw = some (uid, uids) ∧
        s.step ownEngine session (.create order draw) = s.put session sandbox ⟨t, uids⟩ ∧
        sandbox.name = order.name ∧ sandbox.closed = false ∧
        Creates session order.name s.world.engine t ∧
        t.intrusions = (s.world.engine.touch session order.name).intrusions) := by
  simp only [step, create]
  cases hsandbox : s.sandboxes session with
  | some sandbox => exact .inl ⟨fun hnone => Option.some_ne_none _ hnone.1, s.world.uids, rfl⟩
  | none =>
    cases hreserve : s.world.uids.reserve? draw with
    | none =>
      simp only [Sandbox.create, hreserve]
      exact .inl ⟨fun hsome => Bool.noConfusion hsome.2.1, s.world.uids, rfl⟩
    | some reserved =>
      obtain ⟨uid, uids⟩ := reserved
      simp only [Sandbox.create, hreserve]
      cases hfails : s.world.engine.state.failsCreate with
      | true =>
        rw [createContainer_of_unavailable session h.mishaps hfails]
        exact .inl ⟨fun hfalse => Bool.noConfusion hfalse.2.2, uids.release uid, rfl⟩
      | false =>
        obtain ⟨t, hcreate, hcreates, hintrusions⟩ := createContainer_of_available session
          h.mishaps hfails (order.container uid) fun owner => h.held order.name owner
        rw [hcreate]
        exact .inr ⟨by simp, uid, _, t, uids, rfl, rfl, rfl, rfl, hcreates, hintrusions⟩

/-- A sandbox under a name that no open one has is created without touching anyone. -/
theorem sound_put (h : s.Sound) {sandbox : Sandbox} {t : Owned Memory} {uids : Uids}
    (hnone : s.sandboxes session = none) (hopen : sandbox.closed = false)
    (hcreates : Creates session sandbox.name s.world.engine t)
    (hfree : ∀ other sandbox', s.sandboxes other = some sandbox' → sandbox'.closed = false →
      sandbox'.name ≠ sandbox.name) :
    (s.put session sandbox ⟨t, uids⟩).Sound := by
  have howners (name : String) : (s.put session sandbox ⟨t, uids⟩).world.engine.owner name =
      if name = sandbox.name then some session else s.world.engine.owner name :=
    hcreates.owner name
  refine ⟨hcreates.mishaps.trans h.mishaps, ?_, ?_⟩
  · intro name other
    rw [howners]
    by_cases hother : other = session
    · subst hother
      rw [sandboxes_put_self]
      by_cases hown : name = sandbox.name
      · simp [hown, hopen]
      · rw [if_neg hown, h.owner, hnone]
        simp [Ne.symm hown]
    · rw [sandboxes_put_other _ _ _ hother]
      by_cases hown : name = sandbox.name
      · subst hown
        rw [if_pos rfl]
        constructor
        · intro howner
          exact absurd (Option.some.inj howner).symm hother
        · rintro ⟨sandbox', hsandbox', hopen', hname'⟩
          exact absurd hname' (hfree other sandbox' hsandbox' hopen')
      · rw [if_neg hown, h.owner]
  · intro name other howner
    rw [howners] at howner
    by_cases hown : name = sandbox.name
    · subst hown
      exact hcreates.held
    · rw [if_neg hown] at howner
      have hheld := h.held name other howner
      rw [← hcreates.home name hown] at hheld
      exact hheld

/-- As long as no name is taken from an open sandbox, the state stays sound and others are left alone. -/
theorem respects_of_not_collides (h : s.Sound) {operation : Operation}
    (hfree : ¬s.Collides session operation) :
    (s.step ownEngine session operation).Sound ∧ s.Respects session operation := by
  cases operation with
  | create order draw =>
    rcases step_create_cases h session order draw with
      ⟨_, uids, hstep⟩ | ⟨hgoes, _, sandbox, t, uids, _, hstep, hname, hopen, hcreates, hintrusions⟩
    · refine ⟨by rw [hstep]; exact ⟨h.mishaps, h.owner, h.held⟩, ?_, ?_⟩
      · rw [hstep]
      · intro other sandbox _ _ _
        rw [hstep]
        rfl
    · have hfree' (other : Nat) (sandbox' : Sandbox) (hsandbox' : s.sandboxes other = some sandbox')
          (hopen' : sandbox'.closed = false) : sandbox'.name ≠ sandbox.name := fun hsame =>
        hfree ⟨hgoes.1, hgoes.2.1, hgoes.2.2, other, sandbox', hsandbox', hopen', hsame.trans hname⟩
      rw [← hname] at hcreates hintrusions
      refine ⟨hstep ▸ sound_put h hgoes.1 hopen hcreates hfree', ?_, ?_⟩
      · have hnone : s.world.engine.owner sandbox.name = none := by
          cases howner : s.world.engine.owner sandbox.name with
          | none => rfl
          | some other =>
            obtain ⟨sandbox', hsandbox', hopen', hname'⟩ := (h.owner _ _).1 howner
            exact absurd hname' (hfree' other sandbox' hsandbox' hopen')
        rw [Owned.touch_of_none hnone] at hintrusions
        rw [hstep]
        exact hintrusions
      · intro other sandbox' _ hsandbox' hopen'
        rw [hstep]
        exact hcreates.home _ (hfree' other sandbox' hsandbox' hopen')
  | putFiles files mtime =>
    obtain ⟨hsound, hintrusions, hhome⟩ := sound_step_use h
      (fun r hclosed => Running.putFiles_of_closed hclosed (ownEngine session) files mtime)
      (fun r hopen howns => Running.continues_putFiles hopen howns files mtime)
    exact ⟨hsound, hintrusions, hhome⟩
  | exec command =>
    obtain ⟨hsound, hintrusions, hhome⟩ := sound_step_use h
      (fun r hclosed => Running.exec_of_closed hclosed (ownEngine session) command)
      (fun r hopen howns => Running.continues_exec hopen howns command)
    exact ⟨hsound, hintrusions, hhome⟩
  | getFiles patterns =>
    obtain ⟨hsound, hintrusions, hhome⟩ := sound_step_use h
      (fun r hclosed => Running.getFiles_of_closed hclosed (ownEngine session) patterns)
      (fun r hopen howns => Running.continues_getFiles hopen howns patterns)
    exact ⟨hsound, hintrusions, hhome⟩
  | shutDown =>
    obtain ⟨hsound, hintrusions, hhome⟩ := sound_step_use h
      (fun r hclosed => Running.shutDown_of_closed hclosed (ownEngine session))
      (fun r hopen howns => Running.continues_shutDown hopen howns)
    exact ⟨hsound, hintrusions, hhome⟩

/-- A name is taken from an open sandbox by touching its container. -/
theorem not_respects_of_collides (h : s.Sound) {operation : Operation}
    (hcollides : s.Collides session operation) : ¬s.Respects session operation := by
  cases operation with
  | create order draw =>
    obtain ⟨hnone, hreserve, hfails, other, sandbox', hsandbox', hopen', hname'⟩ := hcollides
    intro hrespects
    rcases step_create_cases h session order draw with
      ⟨hstops, _⟩ | ⟨_, _, sandbox, t, uids, _, hstep, _, _, _, hintrusions⟩
    · exact hstops ⟨hnone, hreserve, hfails⟩
    · have howner := (h.owner order.name other).2 ⟨sandbox', hsandbox', hopen', hname'⟩
      have hne : other ≠ session := by
        rintro rfl
        rw [hnone] at hsandbox'
        cases hsandbox'
      have hsame := hrespects.intrusions
      rw [hstep] at hsame
      have happend := (hintrusions.symm.trans hsame).symm
      rw [Owned.intrusions_touch_of_ne howner hne] at happend
      simpa using congrArg List.length happend
  | _ => exact hcollides.elim

/-- A property of every operation of a run, each in the state in which it is done. -/
def Throughout (P : Shared (Owned Memory) → Nat → Operation → Prop) :
    Shared (Owned Memory) → List (Nat × Operation) → Prop
  | _, [] => True
  | s, (session, operation) :: run =>
    P s session operation ∧ Throughout P (s.step ownEngine session operation) run

/-- An engine in any state in which nothing fails without a reason, before any session. Containers that are
there belong to nobody. -/
def start (m : Memory) (uids : Uids) : Shared (Owned Memory) where
  world := ⟨{ state := { m with mishaps := {} } }, uids⟩

theorem sound_start (m : Memory) (uids : Uids) : (start m uids).Sound := by
  refine ⟨rfl, ?_, ?_⟩
  · intro name session
    constructor
    · intro h
      cases h
    · rintro ⟨sandbox, h, _⟩
      cases h
  · intro name session h
    cases h

/-- The sessions of a run leave each other alone exactly when none of them creates a sandbox under a name
that an open one has. -/
theorem sessions_apart_iff (m : Memory) (uids : Uids) (run : List (Nat × Operation)) :
    Throughout Respects (start m uids) run ↔
      Throughout (fun s session operation => ¬s.Collides session operation) (start m uids) run := by
  have hsound := sound_start m uids
  generalize start m uids = s at hsound
  induction run generalizing s with
  | nil => exact Iff.rfl
  | cons first run ih =>
    obtain ⟨session, operation⟩ := first
    by_cases hcollides : s.Collides session operation
    · constructor
      · rintro ⟨hrespects, _⟩
        exact absurd hrespects (not_respects_of_collides hsound hcollides)
      · rintro ⟨hfree, _⟩
        exact absurd hcollides hfree
    · obtain ⟨hnext, hrespects⟩ := respects_of_not_collides hsound hcollides
      have hrest := ih (s.step ownEngine session operation) hnext
      constructor
      · rintro ⟨_, hrun⟩
        exact ⟨hcollides, hrest.1 hrun⟩
      · rintro ⟨_, hrun⟩
        exact ⟨hrespects, hrest.2 hrun⟩

/-- Two sessions of one user give their sandboxes one name, and the second takes the container of the
first. -/
theorem same_user_not_apart :
    let order : Sandbox.Order := ⟨"nanny-42", "python:3", {}, false⟩
    ¬Throughout Respects (start {} {}) [(1, .create order 0), (2, .create order 1)] := by
  rintro order ⟨_, hsecond, _⟩
  have hsound := sound_start {} {}
  have hfirst : ¬(start {} {}).Collides 1 (.create order 0) := by
    rintro ⟨_, _, _, other, sandbox, hsandbox, _⟩
    cases hsandbox
  have hsound' := (respects_of_not_collides hsound hfirst).1
  apply not_respects_of_collides hsound' _ hsecond
  rcases step_create_cases hsound 1 order 0 with
    ⟨hstops, _⟩ | ⟨_, uid, sandbox, t, uids, hreserve, hstep, hname, hopen, hcreates, _⟩
  · exact absurd ⟨rfl, Uids.reserve?_isSome (by decide) 0, rfl⟩ hstops
  · have hreserved : uids.reserved = [uid] := Uids.reserved_of_reserve? hreserve
    have hless : uids.reserved.length < Uids.count := by
      rw [hreserved, List.length_singleton, Uids.count]
      omega
    rw [hstep]
    exact ⟨rfl, Uids.reserve?_isSome hless 1, hcreates.failsCreate, 1, sandbox, rfl, hopen, hname⟩

end Shared

end Proctor
