import Mathlib.Data.Set.Card
import Proctor.Engine.Docker
import Proctor.Proofs.SandboxLife
import Proctor.Proofs.Uids

/-!
Who holds a user id. A user id that is given back may be reserved for another session at once, so it must
not be given back again by the session that had it: not when its sandbox is shut down after a command ran
out of time in it, and not when the sandbox is left.

Main statement: `reserved_uids_are_held`, for every order of what sessions do and whatever their engines
answer.
-/

namespace Proctor

variable {σ : Type}

/-- The error of a pool that is used up is not one of the engine's own. -/
def Engine.LeavesUids (e : Engine σ) : Prop :=
  ∀ c s, (e.create c s).1 ≠ .error .uidsExhausted

theorem Memory.engine_leavesUids : Memory.engine.LeavesUids := by
  intro c m
  simp only [Memory.engine, Memory.orMishap]
  split
  · rename_i mishap _
    cases mishap <;> simp [Mishap.error]
  · unfold Memory.create
    split
    · simp [Memory.unavailable]
    · split <;> simp

theorem Docker.outcome_ne (arguments : List String) (reply : Reply) :
    outcome arguments reply ≠ .error .uidsExhausted := by
  unfold outcome
  extract_lets status
  split <;> simp

theorem Docker.engine_leavesUids (d : Docker σ) : d.engine.LeavesUids := by
  intro c s
  have hrun : (d.run (runArguments c) [] s).1 ≠ .error .uidsExhausted := by
    simp only [Docker.run]
    split
    · simp
    · exact outcome_ne _ _
  simp only [Docker.engine, Docker.create]
  split
  · simp
  · split <;> simp
  · rename_i e _ _ hresult
    rw [hresult] at hrun
    simpa using hrun

theorem Sandbox.createContainer_ne {e : Engine σ} (h : e.LeavesUids) (c : Container) (s : σ) :
    (createContainer e c s).1 ≠ .error .uidsExhausted := by
  unfold createContainer
  split
  · exact h c _
  · exact h c s

namespace Shared

/-- A session holds the user id of its sandbox until the sandbox is closed or left. -/
def Holds (s : Shared σ) (session uid : Nat) : Prop :=
  ∃ sandbox, s.sandboxes session = some sandbox ∧ sandbox.closed = false ∧ sandbox.uid = uid

/-- The sessions that have a sandbox which is neither closed nor left. -/
def live (s : Shared σ) : Set Nat :=
  {session | ∃ uid, s.Holds session uid}

/-- A session leaves its sandbox, if it has one. -/
def leave (session : Nat) (s : Shared σ) : Shared σ :=
  match s.sandboxes session with
  | none => s
  | some sandbox =>
    { world := Running.leave { sandbox, world := s.world }
      sandboxes := fun other => if other = session then none else s.sandboxes other }

/-- What a session does next. -/
inductive Move
  | operate (operation : Operation)
  | leave

def move (engines : Nat → Engine σ) (s : Shared σ) (session : Nat) : Move → Shared σ
  | .operate operation => s.step engines session operation
  | .leave => s.leave session

/-- The state after moves of sessions, one after another. -/
def after (engines : Nat → Engine σ) (s : Shared σ) (moves : List (Nat × Move)) : Shared σ :=
  moves.foldl (fun s next => s.move engines next.1 next.2) s

/-! ### What a move does to user ids -/

/-- A move leaves all user ids where they are, gives a free one to a session that has none, or takes the
one of a session back. -/
inductive Passes (s t : Shared σ) : Prop
  | nothing (reserved : t.world.uids.reserved = s.world.uids.reserved)
      (holds : ∀ session uid, t.Holds session uid ↔ s.Holds session uid)
  | given (session uid : Nat) (free : uid ∈ s.world.uids.free)
      (reserved : t.world.uids.reserved = uid :: s.world.uids.reserved)
      (none_held : ∀ uid, ¬s.Holds session uid)
      (holds : ∀ other uid', t.Holds other uid' ↔ (other = session ∧ uid' = uid) ∨ s.Holds other uid')
  | taken (session uid : Nat) (held : s.Holds session uid)
      (reserved : t.world.uids.reserved = s.world.uids.reserved.erase uid)
      (holds : ∀ other uid', t.Holds other uid' ↔ other ≠ session ∧ s.Holds other uid')

variable {s t : Shared σ} {session uid : Nat}

theorem holds_put_self {sandbox : Sandbox} {w : World σ} :
    (s.put session sandbox w).Holds session uid ↔ sandbox.closed = false ∧ sandbox.uid = uid := by
  simp [Holds]

theorem holds_put_other {other : Nat} {sandbox : Sandbox} {w : World σ} (h : other ≠ session) :
    (s.put session sandbox w).Holds other uid ↔ s.Holds other uid := by
  rw [Holds, sandboxes_put_other s sandbox w h, Holds]

theorem holds_iff {sandbox : Sandbox} (h : s.sandboxes session = some sandbox) :
    s.Holds session uid ↔ sandbox.closed = false ∧ sandbox.uid = uid := by
  simp [Holds, h]

/-- Work in a sandbox touches its own user id only, and only when the sandbox is closed by it. -/
theorem passes_use {e : Engine σ} {act : Running σ → Running σ}
    (hact : ∀ r : Running σ, r.Goes e (act r))
    (session : Nat) (s : Shared σ) : s.Passes (s.use act session) := by
  simp only [use]
  cases hsandbox : s.sandboxes session with
  | none => exact .nothing rfl fun _ _ => Iff.rfl
  | some sandbox =>
    have hgoes := hact { sandbox, world := s.world }
    simp only
    generalize act { sandbox, world := s.world } = r at hgoes
    have hkept (h : r.sandbox.closed = sandbox.closed) (other uid' : Nat) :
        (s.put session r.sandbox r.world).Holds other uid' ↔ s.Holds other uid' := by
      by_cases hother : other = session
      · subst hother
        rw [holds_put_self, holds_iff hsandbox, h, hgoes.uid]
      · exact holds_put_other hother
    cases hclosed : sandbox.closed with
    | true =>
      obtain ⟨hstill, hworld⟩ := hgoes.of_closed hclosed
      refine .nothing ?_ (hkept (hstill.trans hclosed.symm))
      exact congrArg (fun w => w.uids.reserved) hworld
    | false =>
      obtain ⟨works, hworld⟩ := hgoes.of_open hclosed
      cases hstate : r.sandbox.closed with
      | true =>
        rw [hstate, if_pos rfl] at hworld
        refine .taken session sandbox.uid ((holds_iff hsandbox).2 ⟨hclosed, rfl⟩) ?_ fun other uid' => ?_
        · exact congrArg (fun w => w.uids.reserved) hworld
        · by_cases hother : other = session
          · subst hother
            simp [holds_put_self, hstate]
          · simp [holds_put_other hother, hother]
      | false =>
        rw [hstate, if_neg Bool.false_ne_true] at hworld
        refine .nothing ?_ (hkept (hstate.trans hclosed.symm))
        exact congrArg (fun w => w.uids.reserved) hworld

/-- A creation that fails has given its user id back. -/
theorem passes_create (e : Engine σ) (session : Nat) (order : Sandbox.Order) (draw : Nat)
    (s : Shared σ) : s.Passes (s.create e session order draw) := by
  simp only [create]
  cases hsandbox : s.sandboxes session with
  | some sandbox => exact .nothing rfl fun _ _ => Iff.rfl
  | none =>
    simp only [Sandbox.create]
    cases hreserve : s.world.uids.reserve? draw with
    | none => exact .nothing rfl fun _ _ => Iff.rfl
    | some reserved =>
      obtain ⟨uid, uids⟩ := reserved
      simp only
      cases Sandbox.createContainer e (order.container uid) s.world.engine with
      | mk result state =>
        cases result with
        | error error =>
          exact .nothing (congrArg Uids.reserved (Uids.release_of_reserve? hreserve)) fun _ _ => Iff.rfl
        | ok =>
          have hnone (uid' : Nat) : ¬s.Holds session uid' := by simp [Holds, hsandbox]
          refine .given session uid (Uids.mem_free_of_reserve? hreserve)
            (Uids.reserved_of_reserve? hreserve) hnone fun other uid' => ?_
          by_cases hother : other = session
          · subst hother
            simp [holds_put_self, hnone, eq_comm]
          · simp [holds_put_other hother, hother]

theorem passes_leave (session : Nat) (s : Shared σ) : s.Passes (s.leave session) := by
  simp only [leave]
  cases hsandbox : s.sandboxes session with
  | none => exact .nothing rfl fun _ _ => Iff.rfl
  | some sandbox =>
    have hholds (other uid' : Nat) : Holds (σ := σ)
        ⟨Running.leave { sandbox, world := s.world },
          fun other => if other = session then none else s.sandboxes other⟩ other uid' ↔
        other ≠ session ∧ s.Holds other uid' := by
      by_cases hother : other = session <;> simp [Holds, hother]
    cases hclosed : sandbox.closed with
    | true =>
      refine .nothing (by simp [Running.leave, hclosed]) fun other uid' => ?_
      rw [hholds]
      by_cases hother : other = session
      · subst hother
        simp [holds_iff hsandbox, hclosed]
      · simp [hother]
    | false =>
      exact .taken session sandbox.uid ((holds_iff hsandbox).2 ⟨hclosed, rfl⟩)
        (by simp [Running.leave, hclosed, Uids.release]) hholds

theorem passes_move (engines : Nat → Engine σ) (s : Shared σ) (session : Nat) (move : Move) :
    s.Passes (s.move engines session move) := by
  cases move with
  | leave => exact passes_leave session s
  | operate operation =>
    cases operation with
    | create order draw => exact passes_create (engines session) session order draw s
    | putFiles files mtime =>
      exact passes_use (fun r => (Running.goes_putFiles (engines session) files mtime r).1) session s
    | exec command => exact passes_use (Running.goes_exec (engines session) command) session s
    | getFiles patterns =>
      exact passes_use (fun r => (Running.goes_getFiles (engines session) patterns r).1) session s
    | shutDown => exact passes_use (Running.goes_shutDown (engines session)) session s

/-! ### The pool and its holders -/

/-- The pool reserves what is held, each user id for one session. -/
structure Balanced (s : Shared σ) : Prop where
  nodup : s.world.uids.reserved.Nodup
  mem_all : s.world.uids.reserved ⊆ Uids.all
  mem_reserved : ∀ uid, uid ∈ s.world.uids.reserved ↔ ∃ session, s.Holds session uid
  apart : ∀ uid session other, s.Holds session uid → s.Holds other uid → session = other

theorem balanced_start (engine : σ) : Balanced ({ world := ⟨engine, {}⟩ } : Shared σ) where
  nodup := .nil
  mem_all := List.nil_subset _
  mem_reserved uid := by simp [Holds]
  apart uid session other h := by simp [Holds] at h

theorem Holds.eq (h : s.Holds session uid) {uid' : Nat} (h' : s.Holds session uid') : uid' = uid := by
  obtain ⟨sandbox, hsandbox, _, rfl⟩ := h
  obtain ⟨sandbox', hsandbox', _, rfl⟩ := h'
  cases hsandbox.symm.trans hsandbox'
  rfl

theorem Balanced.passes (h : s.Balanced) (hpasses : s.Passes t) : t.Balanced := by
  cases hpasses with
  | nothing hreserved hholds =>
    refine ⟨hreserved ▸ h.nodup, hreserved ▸ h.mem_all, fun uid => ?_, fun uid session other => ?_⟩
    · simp only [hreserved, hholds, h.mem_reserved]
    · simp only [hholds]
      exact h.apart uid session other
  | given session uid hfree hreserved hnone hholds =>
    obtain ⟨hall, hnew⟩ := Uids.mem_free.1 hfree
    have hunheld (other : Nat) : ¬s.Holds other uid := fun hother =>
      hnew ((h.mem_reserved uid).2 ⟨other, hother⟩)
    refine ⟨?_, ?_, fun uid' => ?_, fun uid' holder other hholder hother => ?_⟩
    · rw [hreserved]
      exact h.nodup.cons hnew
    · rw [hreserved]
      exact List.cons_subset.2 ⟨hall, h.mem_all⟩
    · simp only [hreserved, List.mem_cons, hholds, h.mem_reserved, exists_or]
      simp
    · rw [hholds] at hholder hother
      rcases hholder with ⟨rfl, rfl⟩ | hholder
      · rcases hother with ⟨rfl, _⟩ | hother
        · rfl
        · exact absurd hother (hunheld other)
      · rcases hother with ⟨rfl, rfl⟩ | hother
        · exact absurd hholder (hunheld holder)
        · exact h.apart uid' holder other hholder hother
  | taken session uid hheld hreserved hholds =>
    refine ⟨?_, ?_, fun uid' => ?_, fun uid' holder other hholder hother => ?_⟩
    · rw [hreserved]
      exact h.nodup.erase uid
    · rw [hreserved]
      exact fun uid' huid' => h.mem_all (List.mem_of_mem_erase huid')
    · rw [hreserved, h.nodup.mem_erase_iff, h.mem_reserved]
      simp only [hholds]
      constructor
      · rintro ⟨hne, other, hother⟩
        refine ⟨other, ?_, hother⟩
        rintro rfl
        exact hne (hheld.eq hother)
      · rintro ⟨other, hne, hother⟩
        refine ⟨?_, other, hother⟩
        rintro rfl
        exact hne (h.apart uid' other session hother hheld)
    · exact h.apart uid' holder other ((hholds _ _).1 hholder).2 ((hholds _ _).1 hother).2

theorem Balanced.after (h : s.Balanced) (engines : Nat → Engine σ) (moves : List (Nat × Move)) :
    (s.after engines moves).Balanced := by
  induction moves generalizing s with
  | nil => exact h
  | cons next moves ih => exact ih (h.passes (passes_move engines s next.1 next.2))

/-- There are as many live sessions as reserved user ids. -/
theorem Balanced.ncard_live (h : s.Balanced) : s.live.ncard = s.world.uids.reserved.length := by
  let uidOf (session : Nat) : Nat := ((s.sandboxes session).map (·.uid)).getD 0
  have huidOf {session uid : Nat} (hholds : s.Holds session uid) : uidOf session = uid := by
    obtain ⟨sandbox, hsandbox, _, rfl⟩ := hholds
    simp [uidOf, hsandbox]
  have himage : uidOf '' s.live = ↑s.world.uids.reserved.toFinset := by
    ext uid
    simp only [Set.mem_image, List.coe_toFinset, Set.mem_ofPred_eq, h.mem_reserved, live]
    constructor
    · rintro ⟨session, ⟨uid', hholds⟩, rfl⟩
      exact ⟨session, huidOf hholds ▸ hholds⟩
    · rintro ⟨session, hholds⟩
      exact ⟨session, ⟨uid, hholds⟩, huidOf hholds⟩
  have hinjective : Set.InjOn uidOf s.live := by
    rintro session ⟨uid, hholds⟩ other ⟨uid', hother⟩ hsame
    rw [huidOf hholds, huidOf hother] at hsame
    exact h.apart uid session other hholds (hsame ▸ hother)
  rw [← hinjective.ncard_image, himage, Set.ncard_coe_finset,
    List.toFinset_card_of_nodup h.nodup]

/-- Nobody gets a user id as long as a thousand sessions are live, and everybody does otherwise. -/
theorem Balanced.create_cases (h : s.Balanced) (e : Engine σ) (order : Sandbox.Order) (draw : Nat) :
    (s.live.ncard = 1000 ∧
      Sandbox.create e order draw s.world = (.error .uidsExhausted, s.world)) ∨
    (s.live.ncard < 1000 ∧ ∃ uid, (∀ session, ¬s.Holds session uid) ∧
      (Sandbox.create e order draw s.world).1 =
        (Sandbox.createContainer e (order.container uid) s.world.engine).1.map
          fun () => order.opened uid) := by
  rw [h.ncard_live]
  cases hreserve : s.world.uids.reserve? draw with
  | none =>
    refine .inl ⟨(Uids.reserve?_eq_none_iff h.nodup h.mem_all).1 hreserve, ?_⟩
    simp only [Sandbox.create, hreserve]
  | some reserved =>
    obtain ⟨uid, uids⟩ := reserved
    have hfree := (Uids.mem_free.1 (Uids.mem_free_of_reserve? hreserve)).2
    have hne : s.world.uids.reserved.length ≠ 1000 := fun hfull => by
      have hnone : s.world.uids.reserve? draw = none :=
        (Uids.reserve?_eq_none_iff h.nodup h.mem_all).2 hfull
      rw [hreserve] at hnone
      cases hnone
    have hle : s.world.uids.reserved.length ≤ 1000 := Uids.length_reserved_le h.nodup h.mem_all
    refine .inr ⟨Nat.lt_of_le_of_ne hle hne, uid, fun session hholds => ?_, ?_⟩
    · exact hfree ((h.mem_reserved uid).2 ⟨session, hholds⟩)
    · simp only [Sandbox.create, hreserve]
      cases Sandbox.createContainer e (order.container uid) s.world.engine with
      | mk result state => cases result <;> rfl

/-- Whatever sessions do one after another, whichever user ids are drawn and whatever engines answer: the
reserved user ids are those of the sandboxes that are neither closed nor left, one session for each, and all
lie in the range of the pool. A creation is refused for want of a user id when a thousand sessions are live;
otherwise it gets one that nobody holds, and ends as the engine says. -/
theorem reserved_uids_are_held (engines : Nat → Engine σ) (engine : σ) (moves : List (Nat × Move)) :
    let s := after engines { world := ⟨engine, {}⟩ } moves
    (∀ uid, uid ∈ s.world.uids.reserved ↔ ∃ session, s.Holds session uid) ∧
    s.world.uids.reserved.Nodup ∧
    (∀ uid ∈ s.world.uids.reserved, 10000 ≤ uid ∧ uid ≤ 10999) ∧
    (∀ uid session other, s.Holds session uid → s.Holds other uid → session = other) ∧
    ∀ (e : Engine σ) (order : Sandbox.Order) (draw : Nat),
      ((s.live.ncard = 1000 ∧
          Sandbox.create e order draw s.world = (.error .uidsExhausted, s.world)) ∨
        (s.live.ncard < 1000 ∧ ∃ uid, (∀ session, ¬s.Holds session uid) ∧
          (Sandbox.create e order draw s.world).1 =
            (Sandbox.createContainer e (order.container uid) s.world.engine).1.map
              fun () => order.opened uid)) ∧
      (e.LeavesUids →
        ((Sandbox.create e order draw s.world).1 = .error .uidsExhausted ↔ s.live.ncard = 1000)) := by
  intro s
  have hbalanced : s.Balanced := (balanced_start engine).after engines moves
  refine ⟨hbalanced.mem_reserved, hbalanced.nodup, fun uid huid => Uids.mem_all.1 (hbalanced.mem_all huid),
    hbalanced.apart, fun e order draw => ?_⟩
  have hcases := hbalanced.create_cases e order draw
  refine ⟨hcases, fun hleaves => ?_⟩
  rcases hcases with ⟨hfull, hcreate⟩ | ⟨hless, uid, _, hcreate⟩
  · simp [hfull, hcreate]
  · have hown := Sandbox.createContainer_ne hleaves (order.container uid) s.world.engine
    have hne : s.live.ncard ≠ 1000 := Nat.ne_of_lt hless
    rw [hcreate]
    cases hresult : (Sandbox.createContainer e (order.container uid) s.world.engine).1 with
    | ok => simp [Except.map, hne]
    | error error =>
      rw [hresult] at hown
      simpa [Except.map, hne] using hown

/-- A command runs out of time, its user id goes to another session, and shutting the first sandbox down once
more does not take it away. -/
theorem hanging_uid_passes_on :
    let order (name : String) : Sandbox.Order := ⟨name, "python:3", { timeout := 10 }, false⟩
    let moves := [(1, .operate (.create (order "nanny-1") 0)),
      (2, .operate (.create (order "nanny-2") 0)), (1, .operate (.exec ["make"])),
      (3, .operate (.create (order "nanny-3") 0)), (1, .operate .shutDown), (2, .leave)]
    let s := after (fun _ => Memory.engine) { world := ⟨{ hangs := true }, {}⟩ } moves
    s.world.uids.reserved = [10000] ∧ s.Holds 3 10000 ∧ (∀ other, s.Holds other 10000 → other = 3) ∧
      s.live.ncard ≠ 1000 := by
  intro order moves s
  have hsandbox : s.sandboxes 3 = some { name := "nanny-3", uid := 10000, timeout := 10 } := by
    decide +kernel
  have hholds : s.Holds 3 10000 := ⟨_, hsandbox, rfl, rfl⟩
  have hcreated : (Sandbox.create Memory.engine (order "nanny-4") 0 s.world).1.isOk = true := by
    decide +kernel
  obtain ⟨_, _, _, hapart, hcreate⟩ :=
    reserved_uids_are_held (fun _ => Memory.engine) ({ hangs := true } : Memory) moves
  refine ⟨by decide +kernel, hholds, fun other hother => hapart 10000 other 3 hother hholds, ?_⟩
  intro hfull
  have hrefused : (Sandbox.create Memory.engine (order "nanny-4") 0 s.world).1 =
      .error .uidsExhausted :=
    ((hcreate Memory.engine (order "nanny-4") 0).2 Memory.engine_leavesUids).2 hfull
  rw [hrefused] at hcreated
  cases hcreated

end Shared

end Proctor
