import Proctor.Proofs.JsonRecord
import Proctor.Wire
import Proctor.Registration

/-!
The wire form of all records. Each record is written from its cells and read back field by field; what
must hold for that is that its numbers are in the range of their fields, its times are of years that
readers take, and its floating-point numbers survive their text. Main statement: every record of every
kind is read back from its document.
-/

namespace Proctor

/-- A time whose text readers take. -/
def Instant.Fits (t : Instant) : Prop :=
  isInRange (Date.ofDays (t.seconds / 86400)) = true

instance (t : Instant) : Decidable t.Fits :=
  inferInstanceAs (Decidable (_ = true))

/-- A number that is read back from its document form. -/
def Binary64.Survives (x : Binary64) : Prop :=
  (Numeral.ofBinary64 x).binary64? = some x

instance (x : Binary64) : Decidable x.Survives :=
  inferInstanceAs (Decidable (_ = some x))

theorem Json.asBinary64?_ofBinary64 {x : Binary64} (h : x.Survives) :
    asBinary64? (ofBinary64 x) = some x := h

theorem Json.asInstant?_of_fits {t : Instant} (h : t.Fits) : asInstant? (ofInstant t) = some t :=
  asInstant?_ofInstant h

open Json

/-! ### Limits and actions -/

namespace Limits

def Fits (l : Limits) : Prop :=
  ∀ n ∈ l.values, n < bound

def cells (l : Limits) : List (String × Option Json) :=
  keys.zip (l.values.map fun n => some (natural n))

theorem members_eq (l : Limits) : l.members = written l.cells := rfl

/-- Limits below their bound are read from their cells. -/
theorem ofFields?_cells {l : Limits} (h : l.Fits) : ofFields? (l.cells.map (·.2)) = some l := by
  have hread (n : Nat) (hn : n ∈ l.values) :
      defaulted 0 (asNatural? bound) (some (natural n)) = some n := asNatural?_natural (h n hn)
  simp only [values, List.mem_cons, List.not_mem_nil, or_false, forall_eq_or_imp, forall_eq] at hread
  obtain ⟨hcpu, hsession, htimeout, hdescriptors, hfileSize, hmemory, hthreads⟩ := hread
  simp [cells, keys, values, ofFields?, hcpu, hsession, htimeout, hdescriptors, hfileSize, hmemory,
    hthreads]

theorem ofJson?_toJson {l : Limits} (h : l.Fits) : ofJson? l.toJson = some l := by
  have hfields : fields? keys l.toJson = some (l.cells.map (·.2)) :=
    fields?_of_cells (congrArg ofPairs l.members_eq) rfl (by decide)
  rw [ofJson?, hfields, Option.bind_some, ofFields?_cells h]

/-- Every cell of limits is a whole number. -/
theorem cells_eq_natural {l : Limits} {cell : String × Option Json} (h : cell ∈ l.cells) :
    ∃ n ∈ l.values, cell.2 = some (natural n) := by
  obtain ⟨n, hn, heq⟩ := List.mem_map.1 (List.of_mem_zip h).2
  exact ⟨n, hn, heq.symm⟩

/-- Every limit has a text. -/
theorem writable_cells (l : Limits) : ∀ cell ∈ l.cells, ∀ v ∈ cell.2, Writable v := by
  intro cell hcell v hv
  obtain ⟨n, -, heq⟩ := cells_eq_natural hcell
  rw [heq] at hv
  cases hv
  exact writable_natural n

theorem writable_toJson (l : Limits) : Writable l.toJson :=
  writable_written l.writable_cells

end Limits

namespace Action

def Fits (a : Action) : Prop :=
  a.limits.Fits

def ownCells (a : Action) : List (String × Option Json) :=
  [("command", some (.text a.command)), ("parser", unlessSkipped a.judge.isEmpty (.text a.judge)),
    ("message", unlessSkipped a.message.isEmpty (.text a.message)),
    ("interactive", some (.bool a.interactive))]

def cells (a : Action) : List (String × Option Json) :=
  a.ownCells ++ a.limits.cells

/-- The limits of an action stand among its own members. -/
theorem toJson_eq (a : Action) : a.toJson = ofPairs (written a.cells) := by
  rw [cells, written_append, ← Limits.members_eq]
  simp [toJson, ownCells]

/-- No key of the limits is one of the action itself. -/
theorem nodup_keys (a : Action) : (a.cells.map (·.1)).Nodup := by
  show (keys ++ Limits.keys).Nodup
  decide

/-- The members that an action keeps for its limits are whole numbers. -/
theorem areOthersKeepable_toJson (depth : Nat) {a : Action} (h : a.Fits) :
    areOthersKeepable depth keys a.toJson = true := by
  rw [toJson_eq]
  apply areOthersKeepable_written
  intro cell hcell hkey v hv
  rcases List.mem_append.1 hcell with hcell | hcell
  · exact absurd (List.mem_map_of_mem (f := (·.1)) hcell : cell.1 ∈ keys) hkey
  · obtain ⟨n, hn, heq⟩ := Limits.cells_eq_natural hcell
    rw [heq] at hv
    cases hv
    exact isKeepable_natural depth (h n hn)

/-- An action is read in two passes over the same members, once for its limits and once for its own. -/
theorem ofJson?_toJson (depth : Nat) {a : Action} (h : a.Fits) : ofJson? depth a.toJson = some a := by
  have hlimits : objectFields? Limits.keys a.toJson = some (a.limits.cells.map (·.2)) := by
    rw [toJson_eq]
    exact objectFields?_written a.nodup_keys fun _ hc => List.mem_append_right _ hc
  have hown : objectFields? keys a.toJson = some (a.ownCells.map (·.2)) := by
    rw [toJson_eq]
    exact objectFields?_written a.nodup_keys fun _ hc => List.mem_append_left _ hc
  rw [ofJson?, areOthersKeepable_toJson (depth + 1) h, hlimits, Option.bind_some,
    Limits.ofFields?_cells h, hown]
  simp [ownCells]

theorem writable_toJson (a : Action) : Writable a.toJson := by
  have hown : ∀ cell ∈ a.ownCells, ∀ v ∈ cell.2, Writable v := by
    simp [ownCells]
  rw [toJson_eq]
  apply writable_written
  intro cell hcell
  rcases List.mem_append.1 hcell with hcell | hcell
  · exact hown cell hcell
  · exact a.limits.writable_cells cell hcell

end Action

/-! ### Problem types, steps and problems -/

namespace ProblemType

def Fits (t : ProblemType) : Prop :=
  ∀ p ∈ t.actions.entries, p.2.Fits

def cells (t : ProblemType) : List (String × Option Json) :=
  [("name", some (.text t.name)), ("image", some (.text t.image)),
    ("files", unlessSkipped t.files.isEmpty (ofFiles t.files)),
    ("actions", some (ofMap Action.toJson t.actions))]

theorem toJson_eq (t : ProblemType) : t.toJson = ofPairs (written t.cells) := by
  simp [toJson, cells]

/-- A problem type is read back with all its actions, at any depth. -/
theorem ofJson?_toJson (depth : Nat) {t : ProblemType} (h : t.Fits) :
    ofJson? depth t.toJson = some t := by
  have hfields : fields? ["name", "image", "files", "actions"] t.toJson = some (t.cells.map (·.2)) :=
    fields?_of_cells t.toJson_eq rfl (by decide)
  have hactions : asMap? (Action.ofJson? (depth + 2)) (ofMap Action.toJson t.actions) =
      some t.actions := asMap?_ofMap fun p hp => Action.ofJson?_toJson (depth + 2) (h p hp)
  rw [ofJson?, hfields]
  simp [cells, hactions]

theorem writable_toJson (t : ProblemType) : Writable t.toJson := by
  have hactions : Writable (ofMap Action.toJson t.actions) :=
    writable_ofMap fun p _ => p.2.writable_toJson
  rw [toJson_eq]
  apply writable_written
  simp [cells, hactions]

end ProblemType

namespace Step

structure Fits (s : Step) : Prop where
  problemId : IsInt64 s.problemId
  step : IsInt64 s.step
  weight : s.weight.Survives

def cells (s : Step) : List (String × Option Json) :=
  [("problemID", some (.integer s.problemId)), ("step", some (.integer s.step)),
    ("problemType", some (.text s.problemType)), ("note", some (.text s.note)),
    ("instructions", unlessSkipped s.instructions.isEmpty (.text s.instructions)),
    ("weight", some (ofBinary64 s.weight)), ("files", some (ofFiles s.files)),
    ("whitelist", some (ofMap .bool s.whitelist)),
    ("solution", unlessSkipped s.solution.isEmpty (ofFiles s.solution))]

theorem toJson_eq (s : Step) : s.toJson = ofPairs (written s.cells) := by
  simp [toJson, cells]

/-- A step is read back if its weight survives as a decimal numeral. -/
theorem ofJson?_toJson {s : Step} (h : s.Fits) : ofJson? s.toJson = some s := by
  have hfields : fields? keys s.toJson = some (s.cells.map (·.2)) :=
    fields?_of_cells s.toJson_eq rfl (by decide)
  have hproblemId := asInteger?_integer h.problemId
  have hstep := asInteger?_integer h.step
  have hweight := asBinary64?_ofBinary64 h.weight
  rw [ofJson?, hfields]
  simp [cells, hproblemId, hstep, hweight]

theorem writable_toJson (s : Step) : Writable s.toJson := by
  rw [toJson_eq]
  apply writable_written
  simp [cells]

end Step

namespace Problem

structure Fits (p : Problem) : Prop where
  id : IsInt64 p.id
  createdAt : p.createdAt.Fits
  updatedAt : p.updatedAt.Fits

def cells (p : Problem) : List (String × Option Json) :=
  [("id", some (.integer p.id)), ("unique", some (.text p.unique)), ("note", some (.text p.note)),
    ("problemType", some (.text p.problemType)), ("tags", some (ofTexts p.tags)),
    ("options", some (ofTexts p.options)), ("createdAt", some (ofInstant p.createdAt)),
    ("updatedAt", some (ofInstant p.updatedAt))]

theorem toJson_eq (p : Problem) : p.toJson = ofPairs (written p.cells) := rfl

/-- A problem is read back if its times are of years that readers take. -/
theorem ofJson?_toJson {p : Problem} (h : p.Fits) : ofJson? p.toJson = some p := by
  have hfields : fields? keys p.toJson = some (p.cells.map (·.2)) :=
    fields?_of_cells p.toJson_eq rfl (by decide)
  have hid := asInteger?_integer h.id
  have hcreated := asInstant?_of_fits h.createdAt
  have hupdated := asInstant?_of_fits h.updatedAt
  rw [ofJson?, hfields]
  simp [cells, hid, hcreated, hupdated]

theorem writable_toJson (p : Problem) : Writable p.toJson := by
  rw [toJson_eq]
  apply writable_written
  simp [cells]

end Problem

/-! ### Events -/

namespace Event

def Fits : Event → Prop
  | .exit status => statusLow ≤ status ∧ status ≤ statusHigh
  | _ => True

def cells (e : Event) : List (String × Option Json) :=
  [("event", some (.text e.name)), (payloadKey e.name, some e.payload)]

/-- A status of 32 bits is read by way of 64 bits. -/
theorem isInt64_of_status {status : Int} (h : statusLow ≤ status ∧ status ≤ statusHigh) :
    IsInt64 status := by
  have hlow : statusLow = -2147483648 := by decide
  have hhigh : statusHigh = 2147483647 := by decide
  unfold IsInt64
  simp only [UInt64.size]
  omega

theorem name_mem_names (e : Event) : e.name ∈ names := by
  cases e with
  | stream s data => cases s <;> simp [name, Stream.name, names]
  | exec | exit | error | files => simp [name, names]

/-- The kind of an event that is written is a known one. -/
theorem kind?_name (e : Event) : kind? (.text e.name) = some e.name := by
  have hname : names.contains e.name = true := List.contains_iff_mem.2 e.name_mem_names
  simp only [kind?, hname, if_true]

/-- The name of an event tells how its payload is read. -/
theorem ofPayload?_payload {e : Event} (h : e.Fits) : ofPayload? e.name e.payload = some e := by
  cases e with
  | exec command => simp [ofPayload?, name, payload]
  | stream s data => cases s <;> simp [ofPayload?, name, Stream.name, payload]
  | exit status =>
    have hread := asIntegerWithin?_integer (isInt64_of_status h) h
    simp [ofPayload?, name, payload, hread]
  | error message => simp [ofPayload?, name, payload]
  | files contents => simp [ofPayload?, name, payload]

/-- A payload is kept as it is until the name of the event is known. -/
theorem isKeepable_payload {depth : Nat} (hdepth : depth < 127) {e : Event} (h : e.Fits) :
    isKeepable depth e.payload = true := by
  cases e with
  | exec command => exact isKeepable_ofTexts hdepth command
  | stream s data => rfl
  | exit status => exact isKeepable_integer depth (isInt64_of_status h)
  | error message => rfl
  | files contents => exact isKeepable_ofFiles hdepth contents

theorem writable_payload (e : Event) : Writable e.payload := by
  cases e <;> simp [payload, ofBytes]

end Event

namespace Entry

structure Fits (e : Entry) : Prop where
  time : e.time.Fits
  event : e.event.Fits

def cells (e : Entry) : List (String × Option Json) :=
  ("time", some (ofInstant e.time)) :: e.event.cells

theorem toJson_eq (e : Entry) : e.toJson = ofPairs (written e.cells) := rfl

/-- No payload has the key of the time or of the name. -/
theorem nodup_keys (e : Entry) : (e.cells.map (·.1)).Nodup := by
  have hall : ∀ name ∈ Event.names, List.Nodup ["time", "event", Event.payloadKey name] := by decide
  exact hall e.event.name e.event.name_mem_names

theorem areOthersKeepable_toJson {depth : Nat} (hdepth : depth < 127) {e : Entry} (h : e.Fits) :
    areOthersKeepable depth ["time"] e.toJson = true := by
  have hpayload := Event.isKeepable_payload hdepth h.event
  rw [toJson_eq]
  apply areOthersKeepable_written
  intro cell hcell hkey v hv
  simp only [cells, Event.cells, List.mem_cons, List.not_mem_nil, or_false] at hcell
  rcases hcell with rfl | rfl | rfl
  · simp at hkey
  · cases hv
    rfl
  · cases hv
    exact hpayload

/-- An entry is read back unless it is nested too deep: its event shares one object with its time. -/
theorem ofJson?_toJson {depth : Nat} (hdepth : depth < 126) {e : Entry} (h : e.Fits) :
    ofJson? depth e.toJson = some e := by
  have hfields (fields : List (String × Option Json)) (hmem : ∀ cell ∈ fields, cell ∈ e.cells) :
      objectFields? (fields.map (·.1)) e.toJson = some (fields.map (·.2)) :=
    objectFields?_written e.nodup_keys hmem
  have htime : objectFields? ["time"] e.toJson = some [some (ofInstant e.time)] :=
    hfields [("time", some (ofInstant e.time))] (by simp [cells])
  have hkind : objectFields? ["event"] e.toJson = some [some (.text e.event.name)] :=
    hfields [("event", some (.text e.event.name))] (by simp [cells, Event.cells])
  have hpayload : objectFields? [Event.payloadKey e.event.name] e.toJson = some [some e.event.payload] :=
    hfields [(Event.payloadKey e.event.name, some e.event.payload)] (by simp [cells, Event.cells])
  have hevent : Event.ofJson? e.toJson = some e.event := by
    rw [Event.ofJson?, hkind]
    simp [e.event.kind?_name, hpayload, Event.ofPayload?_payload h.event]
  have hinstant := asInstant?_of_fits h.time
  rw [ofJson?, areOthersKeepable_toJson (by omega) h, htime, hevent]
  simp [hinstant]

theorem writable_toJson (e : Entry) : Writable e.toJson := by
  have hpayload := e.event.writable_payload
  rw [toJson_eq]
  apply writable_written
  simp [cells, Event.cells, hpayload]

end Entry

/-! ### Report cards and commits -/

theorem Outcome.ofJson?_name (o : Outcome) : Outcome.ofJson? (.text o.name) = some o := by
  cases o <;> rfl

namespace TestResult

def cells (r : TestResult) : List (String × Option Json) :=
  [("name", some (.text r.name)), ("outcome", some (.text r.outcome.name)),
    ("details", unlessSkipped r.details.isEmpty (.text r.details)),
    ("context", unlessSkipped r.context.isEmpty (.text r.context))]

theorem toJson_eq (r : TestResult) : r.toJson = ofPairs (written r.cells) := by
  simp [toJson, cells]

theorem ofJson?_toJson (r : TestResult) : ofJson? r.toJson = some r := by
  have hfields : fields? ["name", "outcome", "details", "context"] r.toJson = some (r.cells.map (·.2)) :=
    fields?_of_cells r.toJson_eq rfl (by decide)
  rw [ofJson?, hfields]
  simp [cells, Outcome.ofJson?_name]

theorem writable_toJson (r : TestResult) : Writable r.toJson := by
  rw [toJson_eq]
  apply writable_written
  simp [cells]

end TestResult

namespace ReportCard

def cells (c : ReportCard) : List (String × Option Json) :=
  [("passed", some (.bool c.passed)), ("note", some (.text c.note)),
    ("results", some (.array (c.results.map TestResult.toJson)))]

theorem toJson_eq (c : ReportCard) : c.toJson = ofPairs (written c.cells) := rfl

/-- A report card is read back whatever it holds. -/
theorem ofJson?_toJson (c : ReportCard) : ofJson? c.toJson = some c := by
  have hfields : fields? ["passed", "note", "results"] c.toJson = some (c.cells.map (·.2)) :=
    fields?_of_cells c.toJson_eq rfl (by decide)
  have hresults : asList? TestResult.ofJson? (.array (c.results.map TestResult.toJson)) =
      some c.results := asList?_map fun r _ => r.ofJson?_toJson
  rw [ofJson?, hfields]
  simp [cells, hresults]

theorem writable_toJson (c : ReportCard) : Writable c.toJson := by
  have hresults : Writable (.array (c.results.map TestResult.toJson)) :=
    writable_map fun r _ => r.writable_toJson
  rw [toJson_eq]
  apply writable_written
  simp [cells, hresults]

end ReportCard

namespace Commit

/-- What a commit needs apart from its score. -/
structure FitsButScore (c : Commit) : Prop where
  id : IsInt64 c.id
  assignmentId : IsInt64 c.assignmentId
  problemId : IsInt64 c.problemId
  step : IsInt64 c.step
  transcript : ∀ e ∈ c.transcript, e.Fits
  createdAt : c.createdAt.Fits
  updatedAt : c.updatedAt.Fits

structure Fits (c : Commit) : Prop extends c.FitsButScore where
  score : c.score.Survives

def cells (c : Commit) : List (String × Option Json) :=
  [("id", some (.integer c.id)), ("assignmentID", some (.integer c.assignmentId)),
    ("problemID", some (.integer c.problemId)), ("step", some (.integer c.step)),
    ("action", some (.text c.action)), ("note", unlessSkipped c.note.isEmpty (.text c.note)),
    ("files", some (ofFiles c.files)),
    ("transcript", unlessSkipped c.transcript.isEmpty (.array (c.transcript.map Entry.toJson))),
    ("reportCard", some ((c.reportCard.map ReportCard.toJson).getD .null)),
    ("score", some (ofBinary64 c.score)), ("createdAt", some (ofInstant c.createdAt)),
    ("updatedAt", some (ofInstant c.updatedAt))]

theorem toJson_eq (c : Commit) : c.toJson = ofPairs (written c.cells) := by
  simp [toJson, cells]

/-- A commit is read back with the score that its text is read as. -/
theorem ofJson?_toJson_of_score {depth : Nat} (hdepth : depth < 124) {c : Commit} (h : c.FitsButScore)
    {y : Binary64} (hy : asBinary64? (ofBinary64 c.score) = some y) :
    ofJson? depth c.toJson = some { c with score := y } := by
  have hfields : fields? keys c.toJson = some (c.cells.map (·.2)) :=
    fields?_of_cells c.toJson_eq rfl (by decide)
  have htranscript := defaulted_list fun e he =>
    Entry.ofJson?_toJson (show depth + 2 < 126 by omega) (h.transcript e he)
  have hcard : asNullable? ReportCard.ofJson? ((c.reportCard.map ReportCard.toJson).getD .null) =
      some c.reportCard :=
    asNullable?_getD_null (fun _ _ => ofPairs_ne_null _) fun card _ => card.ofJson?_toJson
  rw [ofJson?, hfields]
  simp [cells, asInteger?_integer h.id, asInteger?_integer h.assignmentId,
    asInteger?_integer h.problemId, asInteger?_integer h.step, htranscript, hcard, hy,
    asInstant?_of_fits h.createdAt, asInstant?_of_fits h.updatedAt]

/-- A commit is read back if its score survives too. -/
theorem ofJson?_toJson {depth : Nat} (hdepth : depth < 124) {c : Commit} (h : c.Fits) :
    ofJson? depth c.toJson = some c :=
  ofJson?_toJson_of_score hdepth h.toFitsButScore h.score

theorem writable_toJson (c : Commit) : Writable c.toJson := by
  have htranscript : Writable (.array (c.transcript.map Entry.toJson)) :=
    writable_map fun e _ => e.writable_toJson
  have hcard : Writable ((c.reportCard.map ReportCard.toJson).getD .null) := by
    cases c.reportCard with
    | none => exact .null
    | some card => exact card.writable_toJson
  rw [toJson_eq]
  apply writable_written
  simp [cells, htranscript, hcard]

end Commit

/-! ### Bundles, requests and responses -/

/-- A part that a bundle lacks has no member. -/
@[simp] theorem written_cons_map {α : Type} (k : String) (write : α → Json) (o : Option α)
    (cells : List (String × Option Json)) :
    written ((k, o.map write) :: cells) = Bundle.present k (o.map write) ++ written cells := by
  cases o <;> rfl

namespace Bundle

structure Fits (b : Bundle) : Prop where
  problemType : ∀ t ∈ b.problemType, t.Fits
  problem : ∀ p ∈ b.problem, p.Fits
  steps : ∀ s ∈ b.steps, s.Fits
  userId : IsInt64 b.userId
  commit : ∀ c ∈ b.commit, c.Fits

def cells (b : Bundle) : List (String × Option Json) :=
  [("problemType", b.problemType.map ProblemType.toJson),
    ("problemTypeSignature",
      unlessSkipped b.problemTypeSignature.isEmpty (.text b.problemTypeSignature)),
    ("problem", b.problem.map Problem.toJson),
    ("problemSteps", some (.array (b.steps.map Step.toJson))),
    ("problemSignature", unlessSkipped b.problemSignature.isEmpty (.text b.problemSignature)),
    ("hostname", some (.text b.hostname)), ("userID", some (.integer b.userId)),
    ("commit", b.commit.map Commit.toJson),
    ("commitSignature", unlessSkipped b.commitSignature.isEmpty (.text b.commitSignature))]

theorem toJson_eq (b : Bundle) : b.toJson = ofPairs (written b.cells) := by
  simp [toJson, cells]

/-- A bundle is read back with the parts that it has, and without those that it lacks. -/
theorem ofJson?_toJson {depth : Nat} (hdepth : depth < 123) {b : Bundle} (h : b.Fits) :
    ofJson? depth b.toJson = some b := by
  have hfields : fields? keys b.toJson = some (b.cells.map (·.2)) :=
    fields?_of_cells b.toJson_eq rfl (by decide)
  have hproblemType : defaulted none (asNullable? (ProblemType.ofJson? (depth + 1)))
      (b.problemType.map ProblemType.toJson) = some b.problemType :=
    defaulted_map (fun _ _ => ofPairs_ne_null _) fun t ht =>
      ProblemType.ofJson?_toJson (depth + 1) (h.problemType t ht)
  have hproblem : defaulted none (asNullable? Problem.ofJson?) (b.problem.map Problem.toJson) =
      some b.problem :=
    defaulted_map (fun _ _ => ofPairs_ne_null _) fun p hp => Problem.ofJson?_toJson (h.problem p hp)
  have hsteps : asList? Step.ofJson? (.array (b.steps.map Step.toJson)) = some b.steps :=
    asList?_map fun s hs => Step.ofJson?_toJson (h.steps s hs)
  have hcommit : defaulted none (asNullable? (Commit.ofJson? (depth + 1)))
      (b.commit.map Commit.toJson) = some b.commit :=
    defaulted_map (fun _ _ => ofPairs_ne_null _) fun c hc =>
      Commit.ofJson?_toJson (by omega) (h.commit c hc)
  have huser := asInteger?_integer h.userId
  rw [ofJson?, hfields]
  simp [cells, hproblemType, hproblem, hsteps, hcommit, huser]

theorem writable_toJson (b : Bundle) : Writable b.toJson := by
  have hsteps : Writable (.array (b.steps.map Step.toJson)) :=
    writable_map fun s _ => s.writable_toJson
  rw [toJson_eq]
  apply writable_written
  simp [cells, hsteps, ProblemType.writable_toJson, Problem.writable_toJson, Commit.writable_toJson]

end Bundle

namespace Request

structure Fits (r : Request) : Prop where
  userId : ∀ n ∈ r.userId, IsInt64 n
  bundle : ∀ b ∈ r.bundle, b.Fits

def cells (r : Request) : List (String × Option Json) :=
  [("userID", r.userId.map .integer), ("commitBundle", r.bundle.map Bundle.toJson),
    ("stdin", r.stdin.map .text)]

theorem toJson_eq (r : Request) : r.toJson = ofPairs (written r.cells) := by
  simp [toJson, cells]

/-- A request is read back, whether it has a user, a bundle and an input or not. -/
theorem ofJson?_toJson {depth : Nat} (hdepth : depth < 122) {r : Request} (h : r.Fits) :
    ofJson? depth r.toJson = some r := by
  have hfields : fields? ["userID", "commitBundle", "stdin"] r.toJson = some (r.cells.map (·.2)) :=
    fields?_of_cells r.toJson_eq rfl (by decide)
  have huser : defaulted none (asNullable? asInteger?) (r.userId.map .integer) = some r.userId :=
    defaulted_map (fun n _ => by simp [integer]) fun n hn => asInteger?_integer (h.userId n hn)
  have hbundle : defaulted none (asNullable? (Bundle.ofJson? (depth + 1))) (r.bundle.map Bundle.toJson) =
      some r.bundle :=
    defaulted_map (fun _ _ => ofPairs_ne_null _) fun b hb =>
      Bundle.ofJson?_toJson (by omega) (h.bundle b hb)
  have hstdin : defaulted none (asNullable? asText?) (r.stdin.map .text) = some r.stdin :=
    defaulted_map (fun s _ => by simp) fun s _ => asText?_text s
  rw [ofJson?, hfields]
  simp [cells, huser, hbundle, hstdin]

theorem writable_toJson (r : Request) : Writable r.toJson := by
  rw [toJson_eq]
  apply writable_written
  simp [cells, Bundle.writable_toJson]

end Request

namespace Response

structure Fits (r : Response) : Prop where
  bundle : ∀ b ∈ r.bundle, b.Fits
  event : ∀ e ∈ r.event, e.Fits

def cells (r : Response) : List (String × Option Json) :=
  [("commitBundle", r.bundle.map Bundle.toJson), ("event", r.event.map Entry.toJson),
    ("error", r.error.map .text)]

theorem toJson_eq (r : Response) : r.toJson = ofPairs (written r.cells) := by
  simp [toJson, cells]

/-- A response is read back, whichever of its fields it has. -/
theorem ofJson?_toJson {depth : Nat} (hdepth : depth < 122) {r : Response} (h : r.Fits) :
    ofJson? depth r.toJson = some r := by
  have hfields : fields? ["commitBundle", "event", "error"] r.toJson = some (r.cells.map (·.2)) :=
    fields?_of_cells r.toJson_eq rfl (by decide)
  have hbundle : defaulted none (asNullable? (Bundle.ofJson? (depth + 1))) (r.bundle.map Bundle.toJson) =
      some r.bundle :=
    defaulted_map (fun _ _ => ofPairs_ne_null _) fun b hb =>
      Bundle.ofJson?_toJson (by omega) (h.bundle b hb)
  have hevent : defaulted none (asNullable? (Entry.ofJson? (depth + 1))) (r.event.map Entry.toJson) =
      some r.event :=
    defaulted_map (fun _ _ => ofPairs_ne_null _) fun e he =>
      Entry.ofJson?_toJson (by omega) (h.event e he)
  have herror : defaulted none (asNullable? asText?) (r.error.map .text) = some r.error :=
    defaulted_map (fun s _ => by simp) fun s _ => asText?_text s
  rw [ofJson?, hfields]
  simp [cells, hbundle, hevent, herror]

theorem writable_toJson (r : Response) : Writable r.toJson := by
  rw [toJson_eq]
  apply writable_written
  simp [cells, Bundle.writable_toJson, Entry.writable_toJson]

end Response

/-! ### Registrations -/

namespace Registration

structure Fits (r : Registration) : Prop where
  capacity : r.capacity < capacityBound
  time : r.time.Fits

def cells (r : Registration) : List (String × Option Json) :=
  [("hostname", some (.text r.hostname)), ("problemTypes", some (ofTexts r.problemTypes)),
    ("capacity", some (.natural r.capacity)), ("time", some (ofInstant r.time)),
    ("version", unlessSkipped r.version.isEmpty (.text r.version)),
    ("signature", unlessSkipped r.signature.isEmpty (.text r.signature))]

theorem toJson_eq (r : Registration) : r.toJson = ofPairs (written r.cells) := by
  simp [toJson, cells]

/-- A registration is read back if its capacity is in range and its time is one that readers take. -/
theorem ofJson?_toJson {r : Registration} (h : r.Fits) : ofJson? r.toJson = some r := by
  have hfields : fields? keys r.toJson = some (r.cells.map (·.2)) :=
    fields?_of_cells r.toJson_eq rfl (by decide)
  rw [ofJson?, hfields]
  simp [cells, asNatural?_natural h.capacity, asInstant?_of_fits h.time]

theorem writable_toJson (r : Registration) : Writable r.toJson := by
  rw [toJson_eq]
  apply writable_written
  simp [cells]

end Registration

/-! ### All kinds -/

namespace Wire

/-- Reads a record from the text of a document. -/
def decode? {α : Type} (read : Json → Option α) (s : String) : Option α :=
  (ofText? s).bind read

/-- Printing and reading the text of a document lose nothing of it. -/
theorem decode?_print {α : Type} {read : Json → Option α} {j : Json} {a : α} (hj : Writable j)
    (h : read j = some a) : decode? read j.print = some a := by
  rw [decode?, ofText?_print hj, Option.bind_some, h]

/-- Every record of every kind is read back from its document, whatever texts, bytes and maps it
holds. -/
theorem all_kinds_are_read_back :
    (∀ r : Request, r.Fits → decode? (Request.ofJson? 0) r.toJson.print = some r) ∧
    (∀ r : Response, r.Fits → decode? (Response.ofJson? 0) r.toJson.print = some r) ∧
    (∀ b : Bundle, b.Fits → decode? (Bundle.ofJson? 0) b.toJson.print = some b) ∧
    (∀ c : Commit, c.Fits → decode? (Commit.ofJson? 0) c.toJson.print = some c) ∧
    (∀ p : Problem, p.Fits → decode? Problem.ofJson? p.toJson.print = some p) ∧
    (∀ s : Step, s.Fits → decode? Step.ofJson? s.toJson.print = some s) ∧
    (∀ t : ProblemType, t.Fits → decode? (ProblemType.ofJson? 0) t.toJson.print = some t) ∧
    (∀ a : Action, a.Fits → decode? (Action.ofJson? 0) a.toJson.print = some a) ∧
    (∀ l : Limits, l.Fits → decode? Limits.ofJson? l.toJson.print = some l) ∧
    (∀ c : ReportCard, decode? ReportCard.ofJson? c.toJson.print = some c) ∧
    (∀ e : Entry, e.Fits → decode? (Entry.ofJson? 0) e.toJson.print = some e) ∧
    (∀ r : Registration, r.Fits → decode? Registration.ofJson? r.toJson.print = some r) :=
  ⟨fun r h => decode?_print r.writable_toJson (Request.ofJson?_toJson (by decide) h),
    fun r h => decode?_print r.writable_toJson (Response.ofJson?_toJson (by decide) h),
    fun b h => decode?_print b.writable_toJson (Bundle.ofJson?_toJson (by decide) h),
    fun c h => decode?_print c.writable_toJson (Commit.ofJson?_toJson (by decide) h),
    fun p h => decode?_print p.writable_toJson (Problem.ofJson?_toJson h),
    fun s h => decode?_print s.writable_toJson (Step.ofJson?_toJson h),
    fun t h => decode?_print t.writable_toJson (ProblemType.ofJson?_toJson 0 h),
    fun a h => decode?_print a.writable_toJson (Action.ofJson?_toJson 0 h),
    fun l h => decode?_print l.writable_toJson (Limits.ofJson?_toJson h),
    fun c => decode?_print c.writable_toJson c.ofJson?_toJson,
    fun e h => decode?_print e.writable_toJson (Entry.ofJson?_toJson (by decide) h),
    fun r h => decode?_print r.writable_toJson (Registration.ofJson?_toJson h)⟩

/-- Half a second into the leap second at the end of 2016. -/
def leapSecond : Instant := ⟨1483228799, 1500000000, by decide, by decide⟩

/-- The first second of the year 10000. -/
def farYear : Instant := .ofSeconds 253402300800

/-- A commit with one file, two events and no report card. -/
def outlyingCommit : Commit where
  step := -9223372036854775808
  action := "grade"
  files := KeyMap.ofList [("a b/\n", [0, 255])]
  transcript := [⟨leapSecond, .exit (-2147483648)⟩,
    ⟨farYear, .files (KeyMap.ofList [("out", [10])])⟩]
  score := .one
  createdAt := leapSecond
  updatedAt := farYear

def outlyingType : ProblemType where
  name := "python3"
  image := "image"
  actions := KeyMap.ofList [("grade", { command := "make", limits := { memory := 2 ^ 64 - 1 } })]

def outlyingRequest : Request where
  userId := some 9223372036854775807
  bundle := some { problemType := some outlyingType, commit := some outlyingCommit }
  stdin := some "\x00\"\\"

/-- Values at the ends of their ranges, and times with a leap second and a year of five digits, survive
too. -/
theorem outlying_request_is_read_back :
    outlyingRequest.Fits ∧
      decode? (Request.ofJson? 0) outlyingRequest.toJson.print = some outlyingRequest := by
  have htranscript : ∀ e ∈ outlyingCommit.transcript, e.Fits := by
    have hexit : Entry.Fits ⟨leapSecond, .exit (-2147483648)⟩ :=
      ⟨by decide, show Event.statusLow ≤ _ ∧ _ ≤ Event.statusHigh by decide⟩
    have hyear : farYear.Fits := by decide
    have hfiles (files : KeyMap Bytes) : Entry.Fits ⟨farYear, .files files⟩ := ⟨hyear, trivial⟩
    simp [outlyingCommit, hexit, hfiles]
  have hcommit : outlyingCommit.Fits :=
    { id := by decide, assignmentId := by decide, problemId := by decide, step := by decide,
      transcript := htranscript, createdAt := by decide, updatedAt := by decide,
      score := by decide +kernel }
  have htype : outlyingType.Fits := by
    intro p hp
    have hone : p = ("grade", { command := "make", limits := { memory := 2 ^ 64 - 1 } }) :=
      List.mem_singleton.1 hp
    rw [hone]
    show ∀ n ∈ Limits.values _, n < Limits.bound
    decide
  have hbundle : Bundle.Fits { problemType := some outlyingType, commit := some outlyingCommit } :=
    { problemType := fun _ h => Option.some.inj h ▸ htype
      problem := fun _ h => by cases h
      steps := fun _ h => by cases h
      userId := by decide
      commit := fun _ h => Option.some.inj h ▸ hcommit }
  have huser : IsInt64 9223372036854775807 := by decide
  have hrequest : outlyingRequest.Fits :=
    { userId := fun _ h => Option.some.inj h ▸ huser
      bundle := fun _ h => Option.some.inj h ▸ hbundle }
  exact ⟨hrequest, all_kinds_are_read_back.1 outlyingRequest hrequest⟩

end Wire

end Proctor
