import Proctor.Proofs.Admission

/-!
Which check refuses a bundle. Each check is said of the bundle alone, without the checks before it, and an
admission fails with the error of the first one that refuses. What the checks ask for apart from signatures
is enough once the host's own secret has signed.

Main statement: `admission_settled`.
-/

namespace Proctor

namespace Bundle

/-! ### The checks -/

/-- What an admission checks, one after another. -/
inductive Check
  | problemType
  | problemTypeSigned
  | problem
  | steps
  | problemSigned
  | commit
  | commitSigned
  | hostname
  | user
  | route
  | action
  | problemTypeSignature
  | problemSignature
  | commitSignature
  | host
  | age
  | commitAction
  | step
  | stepNumber
  | stepType
  deriving DecidableEq, Repr

namespace Check

/-- The order of the checks: each part with what signs it, then the host and the user, the route, the
signatures, where and when to run, and the step. -/
def all : List Check :=
  [problemType, problemTypeSigned, problem, steps, problemSigned, commit, commitSigned, hostname, user,
    route, action, problemTypeSignature, problemSignature, commitSignature, host, age, commitAction,
    step, stepNumber, stepType]

def asksSignature : Check → Bool
  | problemTypeSigned | problemSigned | commitSigned => true
  | problemTypeSignature | problemSignature | commitSignature => true
  | _ => false

def errorUnless (condition : Prop) [Decidable condition] (error : AdmissionError) :
    Option AdmissionError :=
  if condition then none else some error

def signatureError? : Except SignatureError Unit → Option AdmissionError
  | .ok () => none
  | .error error => some (.signature error)

/-- Why a check refuses a bundle, if it does. It says nothing of a part that is missing. -/
def refusal? (b : Bundle) (r : Route) (secret : Bytes) (here : String) (now : Instant) :
    Check → Option AdmissionError
  | problemType => errorUnless b.problemType.isSome (.missing "problem type")
  | problemTypeSigned =>
    errorUnless (b.problemTypeSignature ≠ "") (.missing "problem type signature")
  | problem => errorUnless b.problem.isSome (.missing "problem")
  | steps => errorUnless (b.steps ≠ []) (.missing "problem steps")
  | problemSigned => errorUnless (b.problemSignature ≠ "") (.missing "problem signature")
  | commit => errorUnless b.commit.isSome (.missing "commit")
  | commitSigned => errorUnless (b.commitSignature ≠ "") (.missing "commit signature")
  | hostname => errorUnless (b.hostname ≠ "") (.missing "hostname")
  | user => errorUnless (1 ≤ b.userId) (.invalidUser b.userId)
  | route => b.problemType.bind fun t =>
    errorUnless (r.problemType = t.name) (.problemTypeMismatch r.problemType t.name)
  | action => b.problemType.bind fun t =>
    errorUnless (t.actions.find? r.action).isSome (.unknownAction t.name r.action)
  | problemTypeSignature => b.problemType.bind fun t =>
    signatureError? (t.verify secret b.problemTypeSignature)
  | problemSignature => b.problem.bind fun p =>
    signatureError? (p.verify b.steps secret b.problemSignature)
  | commitSignature => b.commit.bind fun c =>
    signatureError? (c.verify b.context secret b.commitSignature)
  | host => errorUnless (b.hostname = here) (.wrongHost b.hostname here)
  | age => b.commit.bind fun c =>
    let age := (now.secondsSince c.updatedAt).natAbs
    errorUnless (age ≤ 900) (.stale age)
  | commitAction => b.commit.bind fun c =>
    errorUnless (c.action = r.action) (.actionMismatch c.action r.action)
  | step => b.commit.bind fun c =>
    errorUnless (1 ≤ c.step ∧ c.step ≤ b.steps.length) (.stepOutOfRange c.step b.steps.length)
  | stepNumber => b.commit.bind fun c => (stepAt? b.steps c.step).bind fun s =>
    errorUnless (s.step = c.step) (.stepNumberMismatch c.step s.step)
  | stepType => b.problemType.bind fun t => b.commit.bind fun c =>
    (stepAt? b.steps c.step).bind fun s =>
      errorUnless (s.problemType = t.name) (.stepTypeMismatch c.step s.problemType t.name)

end Check

/-! ### One check after another -/

section

open Check

variable {α : Type} {error e : AdmissionError}

theorem errorUnless_eq_none {condition : Prop} [Decidable condition] :
    errorUnless condition error = none ↔ condition := by
  simp [errorUnless]

theorem part_eq_error {value : Option α} {name : String} :
    part value name = .error e ↔ errorUnless value.isSome (.missing name) = some e := by
  cases value <;> simp [part, errorUnless]

theorem demand_eq_error {condition : Prop} [Decidable condition] :
    demand condition error = .error e ↔ errorUnless condition error = some e := by
  unfold demand errorUnless
  by_cases h : condition <;> simp [h]

theorem checkSignature_eq_error {result : Except SignatureError Unit} :
    checkSignature result = .error e ↔ signatureError? result = some e := by
  cases result <;> simp [checkSignature, Except.mapError, signatureError?]

end

theorem stepAt?_isSome_iff {steps : List Step} {position : Int} :
    (stepAt? steps position).isSome ↔ 1 ≤ position ∧ position ≤ steps.length := by
  unfold stepAt?
  split
  · rw [isSome_getElem?]
    omega
  · simp
    omega

/-- The error with which some checks end is that of the first one that refuses. -/
def Settles (b : Bundle) (route : Route) (secret : Bytes) (host : String) (now : Instant)
    (checks : List Check) {α : Type} (result : Except AdmissionError α) : Prop :=
  ∀ e, result = .error e ↔ checks.findSome? (Check.refusal? b route secret host now) = some e

variable {b : Bundle} {route : Route} {secret : Bytes} {host : String} {now : Instant}

theorem Settles.nil {α : Type} (a : α) : Settles b route secret host now [] (.ok a) := by
  intro e
  simp

theorem Settles.cons {α β : Type} {check : Check} {checks : List Check}
    {x : Except AdmissionError α} {f : α → Except AdmissionError β}
    (hcheck : ∀ e, x = .error e ↔ check.refusal? b route secret host now = some e)
    (hrest : ∀ a, x = .ok a → Settles b route secret host now checks (f a)) :
    Settles b route secret host now (check :: checks) (x >>= f) := by
  intro e
  rw [List.findSome?_cons]
  cases x with
  | error error =>
    rw [(hcheck error).1 rfl]
    exact Iff.intro (fun h => by cases h; rfl) (fun h => by cases h; rfl)
  | ok a =>
    have hpassed : check.refusal? b route secret host now = none := by
      refine Option.eq_none_iff_forall_ne_some.2 fun error herror => ?_
      cases (hcheck error).2 herror
    rw [hpassed]
    exact hrest a rfl e

theorem settles_admission :
    Settles b route secret host now Check.all (b.admission route secret host now) := by
  unfold admission
  refine .cons (fun e => part_eq_error) fun t ht => ?_
  refine .cons (fun e => demand_eq_error) fun _ _ => ?_
  refine .cons (fun e => part_eq_error) fun p hp => ?_
  refine .cons (fun e => demand_eq_error) fun _ _ => ?_
  refine .cons (fun e => demand_eq_error) fun _ _ => ?_
  refine .cons (fun e => part_eq_error) fun c hc => ?_
  refine .cons (fun e => demand_eq_error) fun _ _ => ?_
  refine .cons (fun e => demand_eq_error) fun _ _ => ?_
  refine .cons (fun e => demand_eq_error) fun _ _ => ?_
  rw [part_eq_ok] at ht hp hc
  refine .cons (fun e => ?_) fun _ _ => ?_
  · rw [Check.refusal?, ht, Option.bind_some]
    exact demand_eq_error
  cases haction : t.actions.find? route.action with
  | none =>
    refine .cons (fun e => ?_) fun _ h => by cases h
    simp [Check.refusal?, Check.errorUnless, ht, haction]
  | some action =>
    refine .cons (fun e => ?_) fun _ h => ?_
    · simp [Check.refusal?, Check.errorUnless, ht, haction]
    cases h
    refine .cons (fun e => ?_) fun _ _ => ?_
    · rw [Check.refusal?, ht, Option.bind_some]
      exact checkSignature_eq_error
    refine .cons (fun e => ?_) fun _ _ => ?_
    · rw [Check.refusal?, hp, Option.bind_some]
      exact checkSignature_eq_error
    refine .cons (fun e => ?_) fun _ _ => ?_
    · rw [Check.refusal?, hc, Option.bind_some]
      exact checkSignature_eq_error
    refine .cons (fun e => demand_eq_error) fun _ _ => ?_
    refine .cons (fun e => ?_) fun _ _ => ?_
    · rw [Check.refusal?, hc, Option.bind_some]
      exact demand_eq_error
    refine .cons (fun e => ?_) fun _ _ => ?_
    · rw [Check.refusal?, hc, Option.bind_some]
      exact demand_eq_error
    have hrange : (stepAt? b.steps c.step).isSome ↔ 1 ≤ c.step ∧ c.step ≤ b.steps.length :=
      stepAt?_isSome_iff
    cases hstep : stepAt? b.steps c.step with
    | none =>
      refine .cons (fun e => ?_) fun _ h => by cases h
      simp [Check.refusal?, Check.errorUnless, hc, ← hrange, hstep]
    | some s =>
      refine .cons (fun e => ?_) fun _ h => ?_
      · simp [Check.refusal?, Check.errorUnless, hc, ← hrange, hstep]
      cases h
      have hfound (f : Step → Option AdmissionError) : (stepAt? b.steps c.step).bind f = f s := by
        rw [hstep, Option.bind_some]
      refine .cons (fun e => ?_) fun _ _ => .cons (fun e => ?_) fun _ _ => .nil _
      · rw [Check.refusal?, hc, Option.bind_some, hfound]
        exact demand_eq_error
      · rw [Check.refusal?, ht, Option.bind_some, hc, Option.bind_some, hfound]
        exact demand_eq_error

theorem admission_eq_error_iff {e : AdmissionError} :
    b.admission route secret host now = .error e ↔
      ∃ before check after, Check.all = before ++ check :: after ∧
        check.refusal? b route secret host now = some e ∧
        ∀ earlier ∈ before, earlier.refusal? b route secret host now = none := by
  rw [settles_admission e, List.findSome?_eq_some_iff]

theorem Check.mem_all (check : Check) : check ∈ all := by
  cases check <;> decide

theorem exists_admission_iff :
    (∃ a, b.admission route secret host now = .ok a) ↔
      ∀ check : Check, check.refusal? b route secret host now = none := by
  have hnone : (∀ check : Check, check.refusal? b route secret host now = none) ↔
      Check.all.findSome? (Check.refusal? b route secret host now) = none := by
    rw [List.findSome?_eq_none_iff]
    exact ⟨fun h check _ => h check, fun h check => h check check.mem_all⟩
  rw [hnone, Option.eq_none_iff_forall_ne_some]
  simp only [ne_eq, ← settles_admission _]
  cases b.admission route secret host now <;> simp

/-- The step that runs is the one at the place that the commit gives. -/
theorem Admits.step_in_range {a : Admitted} (h : b.Admits route secret host now a) :
    1 ≤ a.commit.step ∧ ∃ hrange : (a.commit.step - 1).toNat < a.steps.length,
      a.steps[(a.commit.step - 1).toNat] = a.step := by
  have hstep := h.step
  rw [h.steps, stepAt?] at hstep
  split at hstep
  · rename_i hle
    have hplace : a.commit.step.toNat - 1 = (a.commit.step - 1).toNat := by omega
    rw [hplace] at hstep
    exact ⟨hle, List.getElem?_eq_some_iff.1 hstep⟩
  · cases hstep

/-- What the checks ask for apart from signatures is enough when the host's own secret signs. -/
theorem exists_admission_sign
    (h : ∀ check : Check, check.asksSignature = false → check.refusal? b route secret host now = none) :
    ∃ a, (b.sign secret).admission route secret host now = .ok a := by
  obtain ⟨t, ht⟩ := Option.isSome_iff_exists.1 (errorUnless_eq_none.1 (h .problemType rfl))
  obtain ⟨p, hp⟩ := Option.isSome_iff_exists.1 (errorUnless_eq_none.1 (h .problem rfl))
  obtain ⟨c, hc⟩ := Option.isSome_iff_exists.1 (errorUnless_eq_none.1 (h .commit rfl))
  have hroute := h .route rfl
  have haction := h .action rfl
  have hage := h .age rfl
  have hcommit := h .commitAction rfl
  have hstep := h .step rfl
  have hnumber := h .stepNumber rfl
  have htype := h .stepType rfl
  simp only [Check.refusal?, ht, hc, Option.bind_some, errorUnless_eq_none] at hroute haction hage hcommit hstep
  obtain ⟨action, haction⟩ := Option.isSome_iff_exists.1 haction
  obtain ⟨s, hs⟩ := Option.isSome_iff_exists.1 (stepAt?_isSome_iff.2 hstep)
  simp only [Check.refusal?, ht, hc, hs, Option.bind_some, errorUnless_eq_none] at hnumber htype
  obtain ⟨problemType, commitAction⟩ := route
  subst hroute hcommit
  obtain rfl : b.hostname = host := errorUnless_eq_none.1 (h .host rfl)
  exact ⟨_, admission_of_admits (admits_sign ht hp (errorUnless_eq_none.1 (h .steps rfl)) hc
    (errorUnless_eq_none.1 (h .hostname rfl)) (errorUnless_eq_none.1 (h .user rfl)) haction hage hs
    hnumber htype)⟩

/-- The checks in an order in which the parts and the host come before what signs them. -/
def Check.partsFirst : List Check :=
  [.problemType, .problem, .commit, .steps, .hostname, .problemTypeSigned, .problemSigned,
    .commitSigned] ++ Check.all.drop 8

end Bundle

end Proctor
