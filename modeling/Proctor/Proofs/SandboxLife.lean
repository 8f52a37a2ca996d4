import Proctor.Engine.Memory
import Proctor.Proofs.SharedWorld

/-!
The life of one sandbox: what it asks of its engine and of the pool of user ids, from its creation until it
is left. While it is open only work is done in its container; what closes it removes the container and
gives back the user id, and after that nothing is asked of anyone.

Main statement: `calls_of_life`, for every engine and every sequence of uses.
-/

namespace Proctor

variable {σ : Type}

/-! ### What a use of a sandbox leads to -/

/-- What is asked of an engine between the creation of a container and its removal. -/
inductive Work
  | copyIn (archive : Bytes)
  | exec (command : List String)
  | copyOut
  deriving DecidableEq, Repr

/-- The state of an engine after some work in the container of a name. -/
def Work.after (e : Engine σ) (name : String) (uid : Nat) (s : σ) : Work → σ
  | .copyIn archive => (e.copyIn name uid archive s).2
  | .exec command => (e.exec name uid command s).2
  | .copyOut => (e.copyOut name uid s).2

namespace Running

/-- The world after some work in the container of a sandbox. -/
def worked (e : Engine σ) (r : Running σ) (works : List Work) : World σ :=
  { r.world with engine := works.foldl (Work.after e r.sandbox.name r.sandbox.uid) r.world.engine }

/-- The world after some work in the container of a sandbox and its removal. -/
def ended (e : Engine σ) (r : Running σ) (works : List Work) : World σ where
  engine := (e.remove r.sandbox.name (r.worked e works).engine).2
  uids := r.world.uids.release r.sandbox.uid

/-- How a sandbox gets from one state to a later one. A closed one stays as it is. -/
structure Goes (e : Engine σ) (r r' : Running σ) : Prop where
  name : r'.sandbox.name = r.sandbox.name
  uid : r'.sandbox.uid = r.sandbox.uid
  timeout : r'.sandbox.timeout = r.sandbox.timeout
  of_closed : r.sandbox.closed = true → r'.sandbox.closed = true ∧ r'.world = r.world
  of_open : r.sandbox.closed = false →
    ∃ works, r'.world = if r'.sandbox.closed then r.ended e works else r.worked e works

variable {e : Engine σ} {r r' r'' : Running σ}

theorem worked_append (hname : r'.sandbox.name = r.sandbox.name)
    (huid : r'.sandbox.uid = r.sandbox.uid) {works : List Work} (h : r'.world = r.worked e works)
    (works' : List Work) : r'.worked e works' = r.worked e (works ++ works') := by
  simp only [worked, hname, huid, h, List.foldl_append]

theorem ended_append (hname : r'.sandbox.name = r.sandbox.name)
    (huid : r'.sandbox.uid = r.sandbox.uid) {works : List Work} (h : r'.world = r.worked e works)
    (works' : List Work) : r'.ended e works' = r.ended e (works ++ works') := by
  have huids : r'.world.uids = r.world.uids := by rw [h]; rfl
  simp only [ended, worked_append hname huid h, hname, huid, huids]

/-- Nothing is asked of anyone. -/
theorem Goes.of_same_world (hname : r'.sandbox.name = r.sandbox.name)
    (huid : r'.sandbox.uid = r.sandbox.uid) (htimeout : r'.sandbox.timeout = r.sandbox.timeout)
    (hclosed : r'.sandbox.closed = r.sandbox.closed)
    (hworld : r'.world = r.world) : r.Goes e r' where
  name := hname
  uid := huid
  timeout := htimeout
  of_closed h := ⟨hclosed.trans h, hworld⟩
  of_open h := ⟨[], by simp [hclosed, h, hworld, worked]⟩

theorem Goes.refl (e : Engine σ) (r : Running σ) : r.Goes e r :=
  .of_same_world rfl rfl rfl rfl rfl

theorem Goes.of_work (hopen : r.sandbox.closed = false) (hname : r'.sandbox.name = r.sandbox.name)
    (huid : r'.sandbox.uid = r.sandbox.uid) (htimeout : r'.sandbox.timeout = r.sandbox.timeout)
    (hopen' : r'.sandbox.closed = false) (work : Work)
    (hworld : r'.world = r.worked e [work]) : r.Goes e r' where
  name := hname
  uid := huid
  timeout := htimeout
  of_closed h := by simp [hopen] at h
  of_open _ := ⟨[work], by simp [hopen', hworld]⟩

theorem Goes.trans (h : r.Goes e r') (h' : r'.Goes e r'') : r.Goes e r'' where
  name := h'.name.trans h.name
  uid := h'.uid.trans h.uid
  timeout := h'.timeout.trans h.timeout
  of_closed hclosed := by
    obtain ⟨hclosed', hworld⟩ := h.of_closed hclosed
    obtain ⟨hclosed'', hworld'⟩ := h'.of_closed hclosed'
    exact ⟨hclosed'', hworld'.trans hworld⟩
  of_open hopen := by
    obtain ⟨works, hworld⟩ := h.of_open hopen
    cases hstate : r'.sandbox.closed with
    | true =>
      obtain ⟨hclosed, hsame⟩ := h'.of_closed hstate
      exact ⟨works, by rw [hsame, hworld, hstate, hclosed]⟩
    | false =>
      obtain ⟨works', hworld'⟩ := h'.of_open hstate
      rw [hstate, if_neg Bool.false_ne_true] at hworld
      refine ⟨works ++ works', ?_⟩
      rw [hworld', worked_append h.name h.uid hworld, ended_append h.name h.uid hworld]

theorem goes_emit (e : Engine σ) (events : List Event) (r : Running σ) : r.Goes e (r.emit events) :=
  .of_same_world rfl rfl rfl rfl rfl

theorem goes_shutDown (e : Engine σ) (r : Running σ) : r.Goes e (r.shutDown e) := by
  unfold shutDown
  cases hclosed : r.sandbox.closed with
  | true => exact .refl e r
  | false => exact ⟨rfl, rfl, rfl, fun h => by simp [hclosed] at h, fun _ => ⟨[], rfl⟩⟩

theorem goes_putFiles (e : Engine σ) (files : KeyMap Bytes) (mtime : Nat) (r : Running σ) :
    r.Goes e (r.putFiles e files mtime).2 ∧
      (r.putFiles e files mtime).2.sandbox.closed = r.sandbox.closed := by
  unfold putFiles
  cases files.isEmpty with
  | true => exact ⟨.refl e r, rfl⟩
  | false =>
    cases hclosed : r.sandbox.closed with
    | true => exact ⟨.refl e r, hclosed⟩
    | false =>
      cases packed files r.sandbox.uid mtime with
      | error error => exact ⟨.refl e r, hclosed⟩
      | ok archive => exact ⟨.of_work hclosed rfl rfl rfl hclosed (.copyIn archive) rfl, hclosed⟩

theorem goes_exec (e : Engine σ) (command : List String) (r : Running σ) :
    r.Goes e (r.exec e command).2 := by
  unfold exec
  cases hclosed : r.sandbox.closed with
  | true => exact .refl e r
  | false =>
    simp only [Bool.false_eq_true, if_false]
    -- the command comes first, and its removal only when it runs out of time
    have hran (events : List Event) : r.Goes e
        ⟨r.sandbox, { r.world with engine := (e.exec r.sandbox.name r.sandbox.uid command
          r.world.engine).2 }, events⟩ :=
      .of_work hclosed rfl rfl rfl hclosed (.exec command) rfl
    split
    · exact hran _
    · exact hran _
    · split
      · exact hran _
      · exact (hran _).trans (goes_shutDown e _)

theorem goes_snapshot (e : Engine σ) (r : Running σ) :
    r.Goes e (r.snapshot e).2 ∧ (r.snapshot e).2.sandbox.closed = r.sandbox.closed := by
  unfold snapshot
  cases r.sandbox.snapshot with
  | some files => exact ⟨.refl e r, rfl⟩
  | none =>
    cases hclosed : r.sandbox.closed with
    | true => exact ⟨.refl e r, hclosed⟩
    | false =>
      simp only [Bool.false_eq_true, if_false]
      split
      · exact ⟨.of_work hclosed rfl rfl rfl hclosed .copyOut rfl, hclosed⟩
      · exact ⟨.of_work hclosed rfl rfl rfl hclosed .copyOut rfl, hclosed⟩

theorem goes_getFiles (e : Engine σ) (patterns : List String) (r : Running σ) :
    r.Goes e (r.getFiles e patterns).2 ∧
      (r.getFiles e patterns).2.sandbox.closed = r.sandbox.closed := by
  rw [getFiles_eq]
  cases patterns.isEmpty with
  | true => exact ⟨.refl e r, rfl⟩
  | false => exact goes_snapshot e r

end Running

namespace Sandbox

/-- What can be asked of a sandbox as long as it is not left. -/
inductive Use
  | putFiles (files : KeyMap Bytes) (mtime : Nat)
  | exec (command : List String)
  | getFiles (patterns : List String)
  | emit (events : List Event)
  | shutDown

end Sandbox

namespace Running

def use (e : Engine σ) (r : Running σ) : Sandbox.Use → Running σ
  | .putFiles files mtime => (r.putFiles e files mtime).2
  | .exec command => (r.exec e command).2
  | .getFiles patterns => (r.getFiles e patterns).2
  | .emit events => r.emit events
  | .shutDown => r.shutDown e

def useAll (e : Engine σ) (uses : List Sandbox.Use) (r : Running σ) : Running σ :=
  uses.foldl (use e) r

theorem goes_use (e : Engine σ) (r : Running σ) (use : Sandbox.Use) : r.Goes e (r.use e use) := by
  cases use with
  | putFiles files mtime => exact (goes_putFiles e files mtime r).1
  | exec command => exact goes_exec e command r
  | getFiles patterns => exact (goes_getFiles e patterns r).1
  | emit events => exact goes_emit e events r
  | shutDown => exact goes_shutDown e r

theorem goes_useAll (e : Engine σ) (uses : List Sandbox.Use) (r : Running σ) :
    r.Goes e (useAll e uses r) := by
  induction uses generalizing r with
  | nil => exact .refl e r
  | cons use uses ih => exact (goes_use e r use).trans (ih _)

/-- A command has no result exactly when it runs in an open sandbox without a time limit and does not end. -/
theorem exec_eq_none_iff (e : Engine σ) (command : List String) (r : Running σ) :
    (r.exec e command).1 = none ↔ r.sandbox.closed = false ∧ r.sandbox.timeout = 0 ∧
      (e.exec r.sandbox.name r.sandbox.uid command r.world.engine).1.ending = .running := by
  unfold exec
  cases hclosed : r.sandbox.closed with
  | true => simp
  | false =>
    cases hending : (e.exec r.sandbox.name r.sandbox.uid command r.world.engine).1.ending with
    | exited status => simp [hending]
    | failed error => simp [hending]
    | running => cases htimeout : r.sandbox.timeout <;> simp [hending, emit, htimeout]

/-- A sandbox is closed by shutting it down, or by a command that runs out of time. -/
theorem closed_use_iff (e : Engine σ) (r : Running σ) (use : Sandbox.Use) :
    (r.use e use).sandbox.closed = true ↔ r.sandbox.closed = true ∨ use = .shutDown ∨
      ∃ command, use = .exec command ∧ r.sandbox.timeout ≠ 0 ∧
        (e.exec r.sandbox.name r.sandbox.uid command r.world.engine).1.ending = .running := by
  cases hclosed : r.sandbox.closed with
  | true => simp [((goes_use e r use).of_closed hclosed).1]
  | false =>
    cases use with
    | putFiles files mtime => simp [Running.use, (goes_putFiles e files mtime r).2, hclosed]
    | exec command =>
      simp only [Running.use, Running.exec, hclosed, Bool.false_eq_true, if_false]
      cases hending : (e.exec r.sandbox.name r.sandbox.uid command r.world.engine).1.ending with
      | exited status => simp [emit, hclosed, hending]
      | failed error => simp [emit, hclosed, hending]
      | running =>
        cases htimeout : r.sandbox.timeout <;> simp [emit, shutDown, hclosed, hending, htimeout]
    | getFiles patterns => simp [Running.use, (goes_getFiles e patterns r).2, hclosed]
    | emit events => simp [Running.use, emit, hclosed]
    | shutDown => simp [Running.use, shutDown, hclosed]

/-- The user id of an open sandbox is given back once, when it is closed or when it is left. -/
theorem Goes.uids_leave {e : Engine σ} {r r' : Running σ} (h : r.Goes e r')
    (hopen : r.sandbox.closed = false) :
    r'.leave.uids = r.world.uids.release r.sandbox.uid := by
  obtain ⟨works, hworld⟩ := h.of_open hopen
  cases hstate : r'.sandbox.closed with
  | true => simp [leave, hstate, hworld, ended]
  | false => simp [leave, hstate, hworld, worked, h.uid]

end Running

/-! ### Watching an engine -/

/-- A call of an engine, with what is answered where that decides what is called next. -/
inductive Engine.Call
  | create (container : Container) (result : Except EngineError Unit)
  | copyIn (name : String)
  | exec (name : String)
  | copyOut (name : String)
  | remove (name : String)

/-- The state of an engine and all calls so far. -/
structure Watched (σ : Type) where
  state : σ
  calls : List Engine.Call := []

/-- Calls in the container of a name that neither create nor remove it. -/
def Engine.Call.IsWorkIn (name : String) : Engine.Call → Prop
  | .copyIn other => other = name
  | .exec other => other = name
  | .copyOut other => other = name
  | _ => False

/-- An engine that notes its calls. -/
def Engine.watched (e : Engine σ) : Engine (Watched σ) where
  create c s :=
    let (result, state) := e.create c s.state
    (result, ⟨state, s.calls ++ [.create c result]⟩)
  copyIn name uid archive s :=
    let (result, state) := e.copyIn name uid archive s.state
    (result, ⟨state, s.calls ++ [.copyIn name]⟩)
  exec name uid command s :=
    let (execution, state) := e.exec name uid command s.state
    (execution, ⟨state, s.calls ++ [.exec name]⟩)
  copyOut name uid s :=
    let (result, state) := e.copyOut name uid s.state
    (result, ⟨state, s.calls ++ [.copyOut name]⟩)
  remove name s :=
    let (result, state) := e.remove name s.state
    (result, ⟨state, s.calls ++ [.remove name]⟩)

def World.watched (w : World σ) : World (Watched σ) :=
  ⟨⟨w.engine, []⟩, w.uids⟩

/-- Noting the calls changes nothing. -/
theorem Engine.watched_simulates (e : Engine σ) : e.watched.Simulates e (·.state) := by
  constructor <;> intros <;> rfl

theorem Running.useAll_map {τ : Type} {e : Engine σ} {e' : Engine τ} {forget : σ → τ}
    (h : e.Simulates e' forget) (uses : List Sandbox.Use) (r : Running σ) :
    Running.useAll e' uses (r.map forget) = (Running.useAll e uses r).map forget := by
  have huse (r : Running σ) (use : Sandbox.Use) :
      (r.map forget).use e' use = (r.use e use).map forget := by
    cases use with
    | putFiles files mtime => simp only [Running.use, Running.putFiles_map h, Prod.map]
    | exec command => simp only [Running.use, Running.exec_map h, Prod.map]
    | getFiles patterns => simp only [Running.use, Running.getFiles_map h, Prod.map]
    | emit events => rfl
    | shutDown => exact Running.shutDown_map h r
  induction uses generalizing r with
  | nil => rfl
  | cons use uses ih =>
    simp only [Running.useAll, List.foldl_cons, huse]
    exact ih (r.use e use)

/-- Work is noted as work. -/
theorem Work.exists_calls (e : Engine σ) (name : String) (uid : Nat) (works : List Work)
    (s : Watched σ) :
    ∃ calls, (works.foldl (Work.after e.watched name uid) s).calls = s.calls ++ calls ∧
      ∀ call ∈ calls, call.IsWorkIn name := by
  have one (s : Watched σ) (work : Work) : ∃ call : Engine.Call,
      (Work.after e.watched name uid s work).calls = s.calls ++ [call] ∧ call.IsWorkIn name := by
    cases work <;> exact ⟨_, rfl, rfl⟩
  induction works generalizing s with
  | nil => exact ⟨[], by simp⟩
  | cons work works ih =>
    obtain ⟨call, hcall, hwork⟩ := one s work
    obtain ⟨calls, hcalls, hworks⟩ := ih (Work.after e.watched name uid s work)
    refine ⟨call :: calls, by rw [List.foldl_cons, hcalls, hcall]; simp, ?_⟩
    simpa using ⟨hwork, hworks⟩

/-- What an open sandbox has called after any way it may have gone: work, and then one removal if it was
closed. -/
theorem Running.Goes.exists_calls {e : Engine σ} {r r' : Running (Watched σ)}
    (h : r.Goes e.watched r') (hopen : r.sandbox.closed = false) :
    ∃ calls, r'.world.engine.calls = r.world.engine.calls ++ calls ++
        (if r'.sandbox.closed then [.remove r.sandbox.name] else []) ∧
      ∀ call ∈ calls, call.IsWorkIn r.sandbox.name := by
  obtain ⟨works, hworld⟩ := h.of_open hopen
  obtain ⟨calls, hcalls, hworks⟩ :=
    Work.exists_calls e r.sandbox.name r.sandbox.uid works r.world.engine
  have hworked : (r.worked e.watched works).engine.calls = r.world.engine.calls ++ calls := hcalls
  have hended : (r.ended e.watched works).engine.calls =
      (r.worked e.watched works).engine.calls ++ [.remove r.sandbox.name] := rfl
  refine ⟨calls, ?_, hworks⟩
  cases hstate : r'.sandbox.closed <;> simp [hworld, hstate, hended, hworked]

/-! ### Creation -/

namespace Sandbox

/-- The calls of a creation and what they come to. What has a name that is in use is removed, and then
creation is tried once more. -/
inductive Creation (c : Container) : List Engine.Call → Except EngineError Unit → Prop
  | once (result : Except EngineError Unit) (h : ∀ name, result ≠ .error (.nameInUse name)) :
    Creation c [.create c result] result
  | again (name : String) (result : Except EngineError Unit) :
    Creation c [.create c (.error (.nameInUse name)), .remove name, .create c result] result

theorem exists_creation (e : Engine σ) (c : Container) (s : σ) :
    ∃ calls result state, Creation c calls result ∧
      createContainer e.watched c ⟨s, []⟩ = (result, ⟨state, calls⟩) := by
  rcases hcreate : e.create c s with ⟨result, s'⟩
  by_cases hinUse : ∃ name, result = .error (.nameInUse name)
  · obtain ⟨name, rfl⟩ := hinUse
    refine ⟨_, (e.create c (e.remove name s').2).1, (e.create c (e.remove name s').2).2,
      .again name _, ?_⟩
    simp [createContainer, Engine.watched, hcreate]
  · refine ⟨_, result, s', .once result fun name h => hinUse ⟨name, h⟩, ?_⟩
    simp only [createContainer, Engine.watched, hcreate]
    split
    · rename_i name _ h
      exact absurd ⟨name, (Prod.mk.inj h).1⟩ hinUse
    · rfl

/-- The sandbox of an order, as it is when its container has been created. -/
def Order.opened (o : Order) (uid : Nat) : Sandbox where
  name := o.name
  uid := uid
  timeout := o.limits.timeout

/-- Without a user id nothing is called; with one a container is created, or the user id is given back. -/
theorem create_cases (e : Engine σ) (order : Order) (draw : Nat) (w : World σ) :
    (w.uids.reserve? draw = none ∧
      create e.watched order draw w.watched = (.error .uidsExhausted, w.watched)) ∨
    ∃ uid uids calls result state, w.uids.reserve? draw = some (uid, uids) ∧
      Creation (order.container uid) calls result ∧
      create e.watched order draw w.watched =
        (result.map fun () => order.opened uid,
          ⟨⟨state, calls⟩, if result.isOk then uids else uids.release uid⟩) := by
  cases hreserve : w.uids.reserve? draw with
  | none => exact .inl ⟨rfl, by simp [create, World.watched, hreserve]⟩
  | some reserved =>
    obtain ⟨uid, uids⟩ := reserved
    obtain ⟨calls, result, state, hcreation, hcreate⟩ :=
      exists_creation e (order.container uid) w.engine
    refine .inr ⟨uid, uids, calls, result, state, rfl, hcreation, ?_⟩
    simp only [create, World.watched, hreserve, hcreate]
    cases result <;> rfl

/-- A sandbox starts out open. -/
theorem opened_of_create {e : Engine σ} {order : Order} {draw : Nat} {w world : World σ}
    {sandbox : Sandbox} (h : create e order draw w = (.ok sandbox, world)) :
    sandbox = order.opened sandbox.uid := by
  simp only [create] at h
  split at h
  · cases h
  · split at h
    · cases h
      rfl
    · cases h

/-- Whatever its engine answers and whatever it is used for: a sandbox is created by at most two calls, the
second only after the removal of what had the name; then there is only work in its container, until a
shutdown or a command that runs out of time has it removed. After that nothing more is called. Without a time
limit no command runs out of time, and one that does not end has no result. The user id is given back when
there is no container, and otherwise once, when the sandbox is closed or when it is left: the pool may be any
at that time, and may even hold the user id several times. -/
theorem calls_of_life (e : Engine σ) (order : Order) (draw : Nat) (w : World σ) :
    (w.uids.reserve? draw = none ∧
        create e.watched order draw w.watched = (.error .uidsExhausted, w.watched) ∨
      ∃ uid uids calls result state, w.uids.reserve? draw = some (uid, uids) ∧
        Creation (order.container uid) calls result ∧
        create e.watched order draw w.watched =
          (result.map fun () => order.opened uid,
            ⟨⟨state, calls⟩, if result.isOk then uids else uids.release uid⟩)) ∧
    (create e.watched order draw w.watched).map id (World.map (·.state)) = create e order draw w ∧
    ∀ sandbox world, create e.watched order draw w.watched = (.ok sandbox, world) →
      ∀ (uids : Uids) (uses : List Use),
        let r := Running.useAll e.watched uses { sandbox, world := { world with uids } }
        let ending command := (e.exec order.name sandbox.uid command r.world.engine.state).1.ending
        (∃ calls, r.world.engine.calls = world.engine.calls ++ calls ++
            (if r.sandbox.closed then [.remove order.name] else []) ∧
          ∀ call ∈ calls, call.IsWorkIn order.name) ∧
        (∀ use, (r.use e.watched use).sandbox.closed = true ↔
          r.sandbox.closed = true ∨ use = .shutDown ∨ ∃ command, use = .exec command ∧
            order.limits.timeout ≠ 0 ∧ ending command = .running) ∧
        (r.sandbox.closed = true →
          ∀ command, r.exec e.watched command = (some (.error (.shutDown order.name)), r)) ∧
        (∀ command, (r.exec e.watched command).1 = none ↔ r.sandbox.closed = false ∧
          order.limits.timeout = 0 ∧ ending command = .running) ∧
        r.leave.uids = uids.release sandbox.uid ∧
        r.map (·.state) =
          Running.useAll e uses { sandbox, world := ⟨world.engine.state, uids⟩ } := by
  refine ⟨create_cases e order draw w, (create_map e.watched_simulates order draw w.watched).symm, ?_⟩
  intro sandbox world hcreate uids uses r ending
  have hopened := opened_of_create hcreate
  have hname : sandbox.name = order.name := by rw [hopened]; rfl
  have hopen : sandbox.closed = false := by rw [hopened]; rfl
  have hgoes : Running.Goes e.watched { sandbox, world := { world with uids } } r :=
    Running.goes_useAll e.watched uses _
  have hname' : r.sandbox.name = order.name := hgoes.name.trans hname
  have huid : r.sandbox.uid = sandbox.uid := hgoes.uid
  have htimeout : r.sandbox.timeout = order.limits.timeout := hgoes.timeout.trans (by rw [hopened]; rfl)
  refine ⟨?_, ?_, ?_, ?_, hgoes.uids_leave hopen, ?_⟩
  · have hcalls := hgoes.exists_calls hopen
    rwa [hname] at hcalls
  · intro use
    have hclosed := Running.closed_use_iff e.watched r use
    rwa [hname', huid, htimeout] at hclosed
  · intro hclosed command
    rw [Running.exec, if_pos hclosed, Running.shutDownError, hname']
  · intro command
    have hnone := Running.exec_eq_none_iff e.watched command r
    rwa [hname', huid, htimeout] at hnone
  · exact (Running.useAll_map e.watched_simulates uses _).symm

/-- A name that is in use is freed once, and a command that runs out of time is the last that is called. -/
theorem calls_of_hanging_life :
    let order : Order := ⟨"nanny-42", "python:3", { timeout := 10 }, false⟩
    let m : Memory := { homes := KeyMap.empty.insert "nanny-42" .empty, hangs := true }
    ∃ sandbox world,
      create Memory.engine.watched order 0 (World.watched ⟨m, {}⟩) = (.ok sandbox, world) ∧
      let r := Running.useAll Memory.engine.watched [.exec ["make"], .getFiles ["*"], .shutDown]
        { sandbox, world }
      r.sandbox.closed = true ∧ r.world.engine.calls.length = 5 ∧
      r.exec Memory.engine.watched ["make"] = (some (.error (.shutDown "nanny-42")), r) ∧
      r.leave.uids = world.uids.release sandbox.uid := by
  intro order m
  refine ⟨_, _, rfl, ?_⟩
  intro r
  have hclosed : r.sandbox.closed = true := rfl
  obtain ⟨_, _, hexec, _, huids, _⟩ := (calls_of_life Memory.engine order 0 ⟨m, {}⟩).2.2 _ _ rfl
    ⟨[10000]⟩ [.exec ["make"], .getFiles ["*"], .shutDown]
  exact ⟨hclosed, rfl, hexec hclosed ["make"], huids⟩

end Sandbox

end Proctor
