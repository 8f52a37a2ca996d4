import Proctor.Sandbox

/-!
Sessions that share one world. Each session has at most one sandbox, and the operations of all sessions
follow one another in any order. What an engine notes besides its work changes nothing: a state may be
forgotten in part before an operation or after it.
-/

namespace Proctor

variable {σ τ : Type}

/-! ### The home directory that a sandbox keeps -/

namespace Running

/-- The home directory as it was when it was first asked for, which the sandbox keeps. -/
def snapshot (e : Engine σ) (r : Running σ) : Except EngineError (KeyMap Bytes) × Running σ :=
  match r.sandbox.snapshot with
  | some files => (.ok files, r)
  | none =>
    if r.sandbox.closed then (.error r.shutDownError, r)
    else
      let (archive, s) := e.copyOut r.sandbox.name r.sandbox.uid r.world.engine
      let r := { r with world := { r.world with engine := s } }
      match archive.bind unpacked with
      | .error error => (.error error, r)
      | .ok files => (.ok files, r.keepHome files)

/-- What is taken out of its place is put back there. -/
theorem getFiles_eq (e : Engine σ) (patterns : List String) (r : Running σ) :
    r.getFiles e patterns =
      if patterns.isEmpty then (.ok .empty, r) else (r.snapshot e).map (·.map (select patterns)) id := by
  obtain ⟨⟨name, uid, timeout, kept, closed⟩, world, events⟩ := r
  unfold getFiles
  cases patterns.isEmpty with
  | true => rfl
  | false =>
    simp only [Bool.false_eq_true, if_false, takeHome, snapshot]
    cases kept with
    | some files => rfl
    | none =>
      cases closed with
      | true => rfl
      | false =>
        simp only [Bool.false_eq_true, if_false]
        cases (e.copyOut name uid world.engine).1.bind unpacked <;> rfl

end Running

/-! ### Engines that do the same -/

/-- Two engines do the same but for what `forget` drops from the states of the first. -/
structure Engine.Simulates (e : Engine σ) (e' : Engine τ) (forget : σ → τ) : Prop where
  create : ∀ c s, e'.create c (forget s) = (e.create c s).map id forget
  copyIn : ∀ name uid archive s,
    e'.copyIn name uid archive (forget s) = (e.copyIn name uid archive s).map id forget
  exec : ∀ name uid command s,
    e'.exec name uid command (forget s) = (e.exec name uid command s).map id forget
  copyOut : ∀ name uid s, e'.copyOut name uid (forget s) = (e.copyOut name uid s).map id forget
  remove : ∀ name s, e'.remove name (forget s) = (e.remove name s).map id forget

def World.map (forget : σ → τ) (w : World σ) : World τ :=
  ⟨forget w.engine, w.uids⟩

def Running.map (forget : σ → τ) (r : Running σ) : Running τ :=
  ⟨r.sandbox, r.world.map forget, r.events⟩

section Simulates

variable {e : Engine σ} {e' : Engine τ} {forget : σ → τ} (h : e.Simulates e' forget)

include h

theorem Sandbox.createContainer_map (c : Container) (s : σ) :
    createContainer e' c (forget s) = (createContainer e c s).map id forget := by
  rw [createContainer, createContainer, h.create]
  cases hcreate : e.create c s with
  | mk result t =>
    cases result with
    | ok => rfl
    | error error =>
      cases error with
      | nameInUse name => simp only [Prod.map, id, h.remove, h.create]
      | _ => rfl

theorem Sandbox.create_map (order : Sandbox.Order) (draw : Nat) (w : World σ) :
    Sandbox.create e' order draw (w.map forget) =
      (Sandbox.create e order draw w).map id (World.map forget) := by
  rw [Sandbox.create, Sandbox.create]
  cases hreserve : w.uids.reserve? draw with
  | none => simp only [World.map, hreserve, Prod.map, id]
  | some reserved =>
    obtain ⟨uid, uids⟩ := reserved
    simp only [World.map, hreserve, createContainer_map h]
    cases hcreate : createContainer e (order.container uid) w.engine with
    | mk result s => cases result <;> rfl

theorem Running.putFiles_map (files : KeyMap Bytes) (mtime : Nat) (r : Running σ) :
    (r.map forget).putFiles e' files mtime = (r.putFiles e files mtime).map id (Running.map forget) := by
  simp only [Running.putFiles, Running.map, World.map, h.copyIn, Running.shutDownError]
  split
  · rfl
  · split
    · rfl
    · split <;> rfl

theorem Running.shutDown_map (r : Running σ) :
    (r.map forget).shutDown e' = (r.shutDown e).map forget := by
  simp only [Running.shutDown, Running.map, World.map, h.remove]
  split <;> rfl

/-- A command does the same on both engines, also where it is cut off or never ends. -/
theorem Running.exec_map (command : List String) (r : Running σ) :
    (r.map forget).exec e' command = (r.exec e command).map id (Running.map forget) := by
  have hshutDown (sandbox : Sandbox) (s : σ) (uids : Uids) (events : List Event) :
      Running.shutDown e' ⟨sandbox, ⟨forget s, uids⟩, events⟩ =
        (Running.shutDown e ⟨sandbox, ⟨s, uids⟩, events⟩).map forget :=
    Running.shutDown_map h ⟨sandbox, ⟨s, uids⟩, events⟩
  by_cases hclosed : r.sandbox.closed
  · simp only [Running.exec, Running.map, hclosed, if_true, Running.shutDownError, Prod.map, id]
  · simp only [Running.exec, Running.map, World.map, h.exec, hclosed, Prod.map, id,
      Bool.false_eq_true, if_false, Running.emit]
    cases hending : (e.exec r.sandbox.name r.sandbox.uid command r.world.engine).1.ending with
    | exited status => rfl
    | failed error => rfl
    | running =>
      by_cases htimeout : r.sandbox.timeout = 0
      · simp only [htimeout, if_true]
      · simp only [htimeout, if_false, hshutDown]
        rfl

theorem Running.snapshot_map (r : Running σ) :
    (r.map forget).snapshot e' = (r.snapshot e).map id (Running.map forget) := by
  simp only [Running.snapshot, Running.map, World.map, h.copyOut, Running.shutDownError]
  split
  · rfl
  · split
    · rfl
    · simp only [Prod.map, id]
      split <;> simp only [*] <;> rfl

/-- Files are found alike on both engines. -/
theorem Running.getFiles_map (patterns : List String) (r : Running σ) :
    (r.map forget).getFiles e' patterns = (r.getFiles e patterns).map id (Running.map forget) := by
  simp only [Running.getFiles_eq, Running.snapshot_map h]
  split <;> rfl

end Simulates

/-- Sessions by number, and the world of their sandboxes. -/
structure Shared (σ : Type) where
  world : World σ
  sandboxes : Nat → Option Sandbox := fun _ => none

namespace Shared

/-- What a session may do with its sandbox. -/
inductive Operation
  | create (order : Sandbox.Order) (draw : Nat)
  | putFiles (files : KeyMap Bytes) (mtime : Nat)
  | exec (command : List String)
  | getFiles (patterns : List String)
  | shutDown

def put (s : Shared σ) (session : Nat) (sandbox : Sandbox) (world : World σ) : Shared σ where
  world := world
  sandboxes := fun other => if other = session then some sandbox else s.sandboxes other

@[simp] theorem sandboxes_put_self (s : Shared σ) (session : Nat) (sandbox : Sandbox)
    (world : World σ) : (s.put session sandbox world).sandboxes session = some sandbox :=
  if_pos rfl

theorem sandboxes_put_other (s : Shared σ) {session other : Nat} (sandbox : Sandbox)
    (world : World σ) (h : other ≠ session) :
    (s.put session sandbox world).sandboxes other = s.sandboxes other :=
  if_neg h

/-- Creates the sandbox of a session, which has only one. -/
def create (engine : Engine σ) (session : Nat) (order : Sandbox.Order) (draw : Nat) (s : Shared σ) :
    Shared σ :=
  match s.sandboxes session with
  | some _ => s
  | none =>
    match Sandbox.create engine order draw s.world with
    | (.ok sandbox, world) => s.put session sandbox world
    | (.error _, world) => { s with world }

/-- Works in the sandbox of a session, if there is one. -/
def use (act : Running σ → Running σ) (session : Nat) (s : Shared σ) : Shared σ :=
  match s.sandboxes session with
  | none => s
  | some sandbox =>
    let r := act { sandbox, world := s.world }
    s.put session r.sandbox r.world

/-- One operation of a session, on the engine as that session has it. -/
def step (engines : Nat → Engine σ) (s : Shared σ) (session : Nat) : Operation → Shared σ
  | .create order draw => s.create (engines session) session order draw
  | .putFiles files mtime => s.use (fun r => (r.putFiles (engines session) files mtime).2) session
  | .exec command => s.use (fun r => (r.exec (engines session) command).2) session
  | .getFiles patterns => s.use (fun r => (r.getFiles (engines session) patterns).2) session
  | .shutDown => s.use (·.shutDown (engines session)) session

def map (forget : σ → τ) (s : Shared σ) : Shared τ :=
  ⟨s.world.map forget, s.sandboxes⟩

/-- What is forgotten of the states plays no part in any operation. -/
theorem step_map {engines : Nat → Engine σ} {engines' : Nat → Engine τ} {forget : σ → τ}
    (h : ∀ session, (engines session).Simulates (engines' session) forget) (s : Shared σ)
    (session : Nat) (operation : Operation) :
    (s.map forget).step engines' session operation = (s.step engines session operation).map forget := by
  have huse {act : Running σ → Running σ} {act' : Running τ → Running τ}
      (hact : ∀ r, act' (r.map forget) = (act r).map forget) :
      (s.map forget).use act' session = (s.use act session).map forget := by
    simp only [use, map]
    cases s.sandboxes session with
    | none => rfl
    | some sandbox =>
      have hrun := hact { sandbox, world := s.world }
      simp only [Running.map] at hrun
      simp only [hrun]
      rfl
  cases operation with
  | create order draw =>
    simp only [step, create, map, Sandbox.create_map (h session)]
    cases s.sandboxes session with
    | some sandbox => rfl
    | none =>
      cases hcreate : Sandbox.create (engines session) order draw s.world with
      | mk result world => cases result <;> rfl
  | putFiles files mtime =>
    simp only [step]
    apply huse
    intro r
    rw [Running.putFiles_map (h session)]
    rfl
  | exec command =>
    simp only [step]
    apply huse
    intro r
    rw [Running.exec_map (h session)]
    rfl
  | getFiles patterns =>
    simp only [step]
    apply huse
    intro r
    rw [Running.getFiles_map (h session)]
    rfl
  | shutDown =>
    simp only [step]
    apply huse
    intro r
    exact Running.shutDown_map (h session) r

end Shared

end Proctor
