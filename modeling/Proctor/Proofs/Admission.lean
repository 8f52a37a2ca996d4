import Proctor.Admission
import Proctor.Proofs.CanonicalText

/-!
What an admitted bundle has met. `Admits` lists all conditions of an admission together with the parts
that it hands on; a bundle is admitted with some parts exactly when they are met.
-/

namespace Proctor

/-- Nanoseconds between two times, whichever is later. -/
def Instant.gap (a b : Instant) : Nat :=
  (a.since b).natAbs

namespace Bundle

theorem part_eq_ok {α : Type} {value : Option α} {name : String} {a : α} :
    part value name = .ok a ↔ value = some a := by
  cases value <;> simp [part]

theorem demand_eq_ok {condition : Prop} [Decidable condition] {error : AdmissionError} {u : Unit} :
    demand condition error = .ok u ↔ condition := by
  unfold demand
  by_cases h : condition <;> simp [h]

theorem checkSignature_eq_ok {result : Except SignatureError Unit} {u : Unit} :
    checkSignature result = .ok u ↔ result = .ok () := by
  cases result <;> simp [checkSignature, Except.mapError]

/-- The conditions under which a bundle may run on a host, and what of it then runs. -/
structure Admits (b : Bundle) (route : Route) (secret : Bytes) (host : String) (now : Instant)
    (a : Admitted) : Prop where
  problemType : b.problemType = some a.problemType
  problemTypeSignature : b.problemTypeSignature = a.problemTypeSignature
  problemTypeSigned : b.problemTypeSignature ≠ ""
  problem : b.problem = some a.problem
  steps : b.steps = a.steps
  steps_ne : b.steps ≠ []
  problemSignature : b.problemSignature = a.problemSignature
  problemSigned : b.problemSignature ≠ ""
  commit : b.commit = some a.commit
  commitSigned : b.commitSignature ≠ ""
  hostname : b.hostname = a.hostname
  hostname_ne : b.hostname ≠ ""
  userId : b.userId = a.userId
  one_le_userId : 1 ≤ b.userId
  route_problemType : route.problemType = a.problemType.name
  action : a.problemType.actions.find? route.action = some a.action
  problemTypeVerified : a.problemType.verify secret b.problemTypeSignature = .ok ()
  problemVerified : a.problem.verify b.steps secret b.problemSignature = .ok ()
  commitVerified : a.commit.verify b.context secret b.commitSignature = .ok ()
  here : b.hostname = host
  recent : distance now a.commit.updatedAt ≤ maxAge
  commit_action : a.commit.action = route.action
  step : stepAt? b.steps a.commit.step = some a.step
  step_number : a.step.step = a.commit.step
  step_problemType : a.step.problemType = a.problemType.name

theorem distance_eq (a b : Instant) : distance a b = a.gap b / nanosPerSecond := by
  simp only [distance, Instant.secondsSince, Int.natAbs_tdiv, Int.natAbs_natCast]
  rfl

/-- Some whole seconds are exceeded only by one second more. -/
theorem distance_le_iff {a b : Instant} {seconds : Nat} :
    distance a b ≤ seconds ↔ a.gap b < (seconds + 1) * nanosPerSecond := by
  rw [distance_eq, ← Nat.lt_succ_iff, Nat.div_lt_iff_lt_mul (by decide)]

/-- Whole seconds do not exceed the time that they are of. -/
theorem distance_le {now started : Instant} {seconds : Nat}
    (h : (now.since started).natAbs ≤ seconds * nanosPerSecond) : distance now started ≤ seconds := by
  rw [distance_eq]
  exact Nat.div_le_of_le_mul (by rw [Nat.mul_comm]; exact h)

variable {b : Bundle} {route : Route} {secret : Bytes} {host : String} {now : Instant}
  {a : Admitted}

theorem admits_of_admission (h : b.admission route secret host now = .ok a) :
    b.Admits route secret host now a := by
  unfold admission at h
  obtain ⟨t, ht, h⟩ := bind_eq_ok.1 h
  obtain ⟨_, hts, h⟩ := bind_eq_ok.1 h
  obtain ⟨p, hp, h⟩ := bind_eq_ok.1 h
  obtain ⟨_, hsteps, h⟩ := bind_eq_ok.1 h
  obtain ⟨_, hps, h⟩ := bind_eq_ok.1 h
  obtain ⟨c, hc, h⟩ := bind_eq_ok.1 h
  obtain ⟨_, hcs, h⟩ := bind_eq_ok.1 h
  obtain ⟨_, hhost, h⟩ := bind_eq_ok.1 h
  obtain ⟨_, huser, h⟩ := bind_eq_ok.1 h
  obtain ⟨_, hroute, h⟩ := bind_eq_ok.1 h
  cases haction : t.actions.find? route.action with
  | none => rw [haction] at h; cases h
  | some action =>
    rw [haction] at h
    obtain ⟨_, hfound, h⟩ := bind_eq_ok.1 h
    cases hfound
    obtain ⟨_, hvt, h⟩ := bind_eq_ok.1 h
    obtain ⟨_, hvp, h⟩ := bind_eq_ok.1 h
    obtain ⟨_, hvc, h⟩ := bind_eq_ok.1 h
    obtain ⟨_, hhere, h⟩ := bind_eq_ok.1 h
    obtain ⟨_, hrecent, h⟩ := bind_eq_ok.1 h
    obtain ⟨_, hcommit, h⟩ := bind_eq_ok.1 h
    cases hstep : stepAt? b.steps c.step with
    | none => rw [hstep] at h; cases h
    | some s =>
      rw [hstep] at h
      obtain ⟨_, hfound, h⟩ := bind_eq_ok.1 h
      cases hfound
      obtain ⟨_, hnumber, h⟩ := bind_eq_ok.1 h
      obtain ⟨_, htype, h⟩ := bind_eq_ok.1 h
      cases h
      rw [demand_eq_ok] at hts hsteps hps hcs hhost huser hroute hhere hrecent hcommit hnumber htype
      rw [part_eq_ok] at ht hp hc
      rw [checkSignature_eq_ok] at hvt hvp hvc
      exact {
        problemType := ht, problemTypeSignature := rfl, problemTypeSigned := hts, problem := hp
        steps := rfl, steps_ne := hsteps, problemSignature := rfl, problemSigned := hps
        commit := hc, commitSigned := hcs, hostname := rfl, hostname_ne := hhost, userId := rfl
        one_le_userId := huser, route_problemType := hroute, action := haction
        problemTypeVerified := hvt, problemVerified := hvp, commitVerified := hvc, here := hhere
        recent := hrecent, commit_action := hcommit, step := hstep, step_number := hnumber
        step_problemType := htype }

theorem demand_true {condition : Prop} [Decidable condition] (h : condition)
    (error : AdmissionError) : demand condition error = .ok () :=
  demand_eq_ok.2 h

theorem admission_of_admits (h : b.Admits route secret host now a) :
    b.admission route secret host now = .ok a := by
  have ht : part b.problemType "problem type" = .ok a.problemType := part_eq_ok.2 h.problemType
  have hp : part b.problem "problem" = .ok a.problem := part_eq_ok.2 h.problem
  have hc : part b.commit "commit" = .ok a.commit := part_eq_ok.2 h.commit
  have hvt := checkSignature_eq_ok (u := ()).2 h.problemTypeVerified
  have hvp := checkSignature_eq_ok (u := ()).2 h.problemVerified
  have hvc := checkSignature_eq_ok (u := ()).2 h.commitVerified
  simp only [admission, ht, hp, hc, hvt, hvp, hvc, h.action, h.step,
    demand_true h.problemTypeSigned, demand_true h.steps_ne, demand_true h.problemSigned,
    demand_true h.commitSigned, demand_true h.hostname_ne, demand_true h.one_le_userId,
    demand_true h.route_problemType, demand_true h.here, demand_true h.recent,
    demand_true h.commit_action, demand_true h.step_number, demand_true h.step_problemType,
    bind, Except.bind]
  rw [h.problemTypeSignature, h.steps, h.problemSignature, h.hostname, h.userId]

/-- A bundle is admitted with some parts exactly when every condition is met. -/
theorem admission_eq_ok_iff :
    b.admission route secret host now = .ok a ↔ b.Admits route secret host now a :=
  ⟨admits_of_admission, admission_of_admits⟩

/-- A bundle whose signatures the host's own secret made is admitted when its parts fit together, the
route and the time. -/
theorem admits_sign {t : ProblemType} {p : Problem} {c : Commit} {action : Action} {s : Step}
    (problemType : b.problemType = some t) (problem : b.problem = some p) (steps : b.steps ≠ [])
    (commit : b.commit = some c) (hostname : b.hostname ≠ "") (user : 1 ≤ b.userId)
    (action_found : t.actions.find? c.action = some action)
    (recent : distance now c.updatedAt ≤ maxAge)
    (step : stepAt? b.steps c.step = some s) (step_number : s.step = c.step)
    (step_problemType : s.problemType = t.name) :
    (b.sign secret).Admits ⟨t.name, c.action⟩ secret b.hostname now {
      problemType := t, problemTypeSignature := t.sign secret, problem := p, steps := b.steps
      problemSignature := p.sign b.steps secret, hostname := b.hostname, userId := b.userId
      commit := c, action, step := s } := by
  have hsign : b.sign secret = { b with
      problemTypeSignature := t.sign secret, problemSignature := p.sign b.steps secret
      commitSignature := c.sign ⟨t.sign secret, p.sign b.steps secret, b.hostname, b.userId⟩
        secret } := by
    simp [sign, signProblemType, signProblem, signCommit, problemType, problem, commit, context]
  rw [hsign]
  exact {
    problemType, problemTypeSignature := rfl
    problemTypeSigned := Signature.Fields.sign_ne_empty _ _
    problem, steps := rfl, steps_ne := steps, problemSignature := rfl
    problemSigned := Signature.Fields.sign_ne_empty _ _
    commit, commitSigned := Signature.Fields.sign_ne_empty _ _
    hostname := rfl, hostname_ne := hostname, userId := rfl, one_le_userId := user
    route_problemType := rfl, action := action_found
    problemTypeVerified := Signature.Fields.verify_sign _ _ _
    problemVerified := Signature.Fields.verify_sign _ _ _
    commitVerified := Signature.Fields.verify_sign _ _ _
    here := rfl, recent, commit_action := rfl, step, step_number, step_problemType }

/-- An action that is cut off after a time. -/
def makeGrade : Action where
  command := "make grade"
  judge := "xunit"
  limits := { timeout := 20 }

/-- A problem type for the submissions below. -/
def python3 : ProblemType where
  name := "python3"
  image := "python:3"
  actions := .ofList [("grade", makeGrade)]

def fizzbuzzProblem : Problem where
  unique := "fizzbuzz"
  problemType := "python3"
  createdAt := .ofSeconds 0
  updatedAt := .ofSeconds 0

def fizzbuzzCommit : Commit where
  step := 1
  action := "grade"
  createdAt := .ofSeconds 0
  updatedAt := .ofSeconds 0

/-- A submission for the first of some steps. -/
def fizzbuzz (steps : List Step) : Bundle where
  problemType := some python3
  problem := some fizzbuzzProblem
  steps := steps
  hostname := "localhost"
  userId := 42
  commit := some fizzbuzzCommit

def fizzbuzzAdmitted (step : Step) (steps : List Step) (secret : Bytes) : Admitted where
  problemType := python3
  problemTypeSignature := python3.sign secret
  problem := fizzbuzzProblem
  steps := step :: steps
  problemSignature := fizzbuzzProblem.sign (step :: steps) secret
  hostname := "localhost"
  userId := 42
  commit := fizzbuzzCommit
  action := makeGrade
  step := step

theorem fizzbuzz_admits (step : Step) (steps : List Step) (secret : Bytes)
    (hnumber : step.step = 1) (htype : step.problemType = "python3") :
    ((fizzbuzz (step :: steps)).sign secret).Admits ⟨"python3", "grade"⟩ secret "localhost"
      (.ofSeconds 30) (fizzbuzzAdmitted step steps secret) := by
  have haction : python3.actions.find? "grade" = some makeGrade := by
    simp [python3, KeyMap.find?_ofList]
  have hhost : (fizzbuzz (step :: steps)).hostname ≠ "" := by simp [fizzbuzz]
  have huser : 1 ≤ (fizzbuzz (step :: steps)).userId := by simp [fizzbuzz]
  have hrecent : distance (.ofSeconds 30) fizzbuzzCommit.updatedAt ≤ maxAge := by decide
  exact admits_sign rfl rfl (List.cons_ne_nil _ _) rfl hhost huser haction hrecent rfl hnumber htype

end Bundle

end Proctor
