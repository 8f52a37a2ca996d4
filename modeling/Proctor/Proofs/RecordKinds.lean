import Proctor.Proofs.Admission
import Proctor.Proofs.ProblemText
import Proctor.Proofs.SignedCommit
import Proctor.Registration

/-!
One secret signs records of four kinds, and no tag tells the kind. Every record of a kind has a key of its
own, the mark of the kind, which no name of a file, an action, a step or an event makes in a record of
another kind. Main statement: records of different kinds have different texts, so a signature that one of
them accepts is refused by the other, or two texts collide.
-/

namespace Proctor

open Signature

namespace Registration

/-- What a registration adds, in order. -/
def signedPairs (r : Registration) : List (String × Bytes) :=
  textPairs <|
    [("hostname", r.hostname)] ++
    (sorted r.problemTypes).zipIdx.map (fun (name, i) => (s!"problemType-{Decimal.text i}", name)) ++
    [("capacity", Decimal.text r.capacity), ("time", r.time.canonical), ("version", r.version)]

theorem valuesOf_signedFields (r : Registration) (key : String) :
    r.signedFields.valuesOf key = valuesAt key r.signedPairs := by
  simp only [signedFields, Fields.addText_eq, Fields.addTime_eq, Fields.addTexts_eq,
    ← Fields.addPairs_append, Fields.valuesOf_addPairs_empty]
  simp [signedPairs, textPairs]

end Registration

/-- What is signed: a record together with all that its signature covers. -/
inductive SignedRecord
  | problemType (t : ProblemType)
  | problem (p : Problem) (steps : List Step)
  | commit (c : Commit) (context : CommitContext)
  | registration (r : Registration)
  deriving DecidableEq

inductive SignedRecord.Kind
  | problemType
  | problem
  | commit
  | registration
  deriving DecidableEq, Repr

namespace SignedRecord

/-- The name of a kind in the refusal of a signature. -/
def Kind.name : Kind → String
  | .problemType => "problem type"
  | .problem => "problem"
  | .commit => "commit"
  | .registration => "registration"

def kind : SignedRecord → Kind
  | .problemType _ => .problemType
  | .problem .. => .problem
  | .commit .. => .commit
  | .registration _ => .registration

def fields : SignedRecord → Fields
  | .problemType t => t.signedFields
  | .problem p steps => p.signedFields steps
  | .commit c context => c.signedFields context
  | .registration r => r.signedFields

/-- The check that a record makes on a signature. -/
def verify (secret : Bytes) (signature : String) : SignedRecord → Except SignatureError Unit
  | .problemType t => t.verify secret signature
  | .problem p steps => p.verify steps secret signature
  | .commit c context => c.verify context secret signature
  | .registration r => { r with signature }.verify secret

theorem verify_eq (r : SignedRecord) (secret : Bytes) (signature : String) :
    r.verify secret signature = r.fields.verify secret signature r.kind.name := by
  cases r <;> rfl

/-- What a record adds, in order. -/
def pairs : SignedRecord → List (String × Bytes)
  | .problemType t => t.signedPairs
  | .problem p steps => p.headPairs ++ steps.flatMap Step.signedPairs
  | .commit c context => c.signedPairs context
  | .registration r => r.signedPairs

theorem valuesOf_fields (r : SignedRecord) (key : String) :
    r.fields.valuesOf key = valuesAt key r.pairs := by
  cases r with
  | problemType t => exact t.valuesOf_signedFields key
  | problem p steps => rw [pairs, valuesAt_append, fields, Problem.valuesOf_signedFields]
  | commit c context => exact c.valuesOf_signedFields context key
  | registration r => exact r.valuesOf_signedFields key

/-- Keys that do not depend on any name or number in a record. -/
def Kind.fixedKeys : Kind → List String
  | .problemType => ["name", "image"]
  | .problem => ["id", "unique", "note", "problemType", "tags", "options", "createdAt", "updatedAt"]
  | .commit => ["id", "assignment_id", "problem_id", "step", "action", "note", "score", "created_at",
      "updated_at", "problem_type_signature", "problem_signature", "daycare_host", "user_id"]
  | .registration => ["hostname", "capacity", "time", "version"]

/-- The starts of all other keys. -/
def Kind.stems : Kind → List String
  | .problemType => ["file-", "action-"]
  | .problem => ["step-"]
  | .commit => ["file-", "transcript-", "reportcard-"]
  | .registration => ["problemType-"]

/-- A key that every record of the kind has. -/
def Kind.mark : Kind → String
  | .problemType => "image"
  | .problem => "unique"
  | .commit => "score"
  | .registration => "capacity"

/-- The shape of a key in records of a kind. -/
def Kind.Shapes (k : Kind) (key : String) : Prop :=
  key ∈ k.fixedKeys ∨ ∃ stem ∈ k.stems, stem.toList <+: key.toList

instance (k : Kind) (key : String) : Decidable (k.Shapes key) := by
  unfold Kind.Shapes
  infer_instance

/-- No mark has the shape of a key of another kind. -/
theorem eq_of_shapes_mark {k k' : Kind} (h : k.Shapes k'.mark) : k = k' := by
  cases k <;> cases k' <;> first | rfl | exact absurd h (by decide)

/-- A key that starts with a fixed text starts with its characters. -/
theorem shapes_of_stem {k : Kind} {stem : String} (hstem : stem ∈ k.stems) (rest : String) :
    k.Shapes (stem ++ rest) := by
  refine .inr ⟨stem, hstem, ?_⟩
  rw [String.toList_append]
  exact List.prefix_append ..

theorem shapes_problemType {t : ProblemType} {p : String × Bytes} (h : p ∈ t.signedPairs) :
    Kind.problemType.Shapes p.1 := by
  rw [ProblemType.signedPairs, List.mem_append, List.mem_append] at h
  rcases h with (h | h) | h
  · obtain ⟨q, hq, rfl⟩ := List.mem_map.1 h
    rcases List.mem_pair.1 hq with rfl | rfl
    · exact .inl (.head _)
    · exact .inl (.tail _ (.head _))
  · obtain ⟨q, _, rfl⟩ := List.mem_map.1 h
    exact shapes_of_stem (.head _) q.1
  · obtain ⟨q, _, h⟩ := List.mem_flatMap.1 h
    obtain ⟨r, hr, rfl⟩ := List.mem_map.1 h
    obtain ⟨part, _, rfl⟩ := List.mem_map.1 hr
    refine .inr ⟨"action-", .tail _ (.head _), ?_⟩
    rw [Action.toList_key]
    exact List.prefix_append ..

theorem shapes_problem {p : Problem} {steps : List Step} {q : String × Bytes}
    (h : q ∈ p.headPairs ++ steps.flatMap Step.signedPairs) : Kind.problem.Shapes q.1 := by
  rcases List.mem_append.1 h with h | h
  · exact .inl (Problem.headPairs_key h)
  · obtain ⟨s, _, h⟩ := List.mem_flatMap.1 h
    obtain ⟨part, _, rfl⟩ := List.mem_map.1 h
    refine .inr ⟨"step-", .head _, ?_⟩
    rw [Step.toList_stem_append]
    exact List.prefix_append ..

theorem prefix_of_mem_cardPairs {card : ReportCard} {p : String × Bytes}
    (h : p ∈ Commit.cardPairs card) : "reportcard-".toList <+: p.1.toList := by
  rw [Commit.cardPairs, List.mem_append] at h
  rcases h with h | h
  · obtain ⟨q, hq, rfl⟩ := List.mem_map.1 h
    rcases List.mem_pair.1 hq with rfl | rfl
    · show "reportcard-".toList <+: "reportcard-passed".toList
      decide
    · show "reportcard-".toList <+: "reportcard-note".toList
      decide
  · obtain ⟨result, _, h⟩ := List.mem_flatMap.1 h
    rw [Commit.resultPairs_eq] at h
    obtain ⟨q, _, rfl⟩ := List.mem_map.1 h
    rw [Commit.toList_resultStem_append]
    exact List.prefix_append ..

theorem shapes_commit {c : Commit} {context : CommitContext} {p : String × Bytes}
    (h : p ∈ c.signedPairs context) : Kind.commit.Shapes p.1 := by
  have text {l : List (String × String)} (hl : ∀ q ∈ l, q.1 ∈ Kind.commit.fixedKeys)
      (hp : p ∈ textPairs l) : Kind.commit.Shapes p.1 := by
    obtain ⟨q, hq, rfl⟩ := List.mem_map.1 hp
    exact .inl (hl q hq)
  simp only [Commit.signedPairs, List.mem_append] at h
  rcases h with (((h | h) | h) | h) | h
  · exact text (by simp [Kind.fixedKeys]) h
  · obtain ⟨q, _, rfl⟩ := List.mem_map.1 h
    exact shapes_of_stem (.head _) q.1
  · obtain ⟨entry, _, h⟩ := List.mem_flatMap.1 h
    rw [Commit.eventPairs_eq] at h
    obtain ⟨q, _, rfl⟩ := List.mem_map.1 h
    refine .inr ⟨"transcript-", .tail _ (.head _), ?_⟩
    rw [Commit.toList_eventStem_append]
    exact List.prefix_append ..
  · refine .inr ⟨"reportcard-", .tail _ (.tail _ (.head _)), ?_⟩
    obtain ⟨card, -, h⟩ : ∃ card, c.reportCard = some card ∧ p ∈ Commit.cardPairs card := by
      cases hcard : c.reportCard with
      | none => simp [hcard] at h
      | some card => exact ⟨card, rfl, by simpa [hcard] using h⟩
    exact prefix_of_mem_cardPairs h
  · exact text (by simp [Kind.fixedKeys]) h

theorem shapes_registration {r : Registration} {p : String × Bytes} (h : p ∈ r.signedPairs) :
    Kind.registration.Shapes p.1 := by
  obtain ⟨q, hq, rfl⟩ := List.mem_map.1 h
  simp only [List.mem_append, List.mem_cons, List.not_mem_nil, or_false] at hq
  rcases hq with (rfl | hq) | rfl | rfl | rfl
  · exact .inl (by simp [Kind.fixedKeys])
  · obtain ⟨⟨name, i⟩, _, rfl⟩ := List.mem_map.1 hq
    exact shapes_of_stem (.head _) (Decimal.text i)
  all_goals exact .inl (by simp [Kind.fixedKeys])

theorem shapes_of_mem_pairs {r : SignedRecord} {p : String × Bytes} (h : p ∈ r.pairs) :
    r.kind.Shapes p.1 := by
  cases r with
  | problemType t => exact shapes_problemType h
  | problem q steps => exact shapes_problem h
  | commit c context => exact shapes_commit h
  | registration r => exact shapes_registration h

/-- Every record has a value under the mark of its kind. -/
theorem exists_mark (r : SignedRecord) : ∃ p ∈ r.pairs, p.1 = r.kind.mark := by
  cases r with
  | problemType t =>
    exact ⟨("image", Utf8.encode t.image), by simp [pairs, ProblemType.signedPairs, textPairs], rfl⟩
  | problem p steps =>
    exact ⟨("unique", Utf8.encode p.unique), by simp [pairs, Problem.headPairs, textPairs], rfl⟩
  | commit c context =>
    exact ⟨("score", Utf8.encode c.score.plainText), by simp [pairs, Commit.signedPairs, textPairs], rfl⟩
  | registration r =>
    exact ⟨("capacity", Utf8.encode (Decimal.text r.capacity)),
      by simp [pairs, Registration.signedPairs, textPairs], rfl⟩

/-- A record has a value under the mark of its own kind and of no other. -/
theorem valuesOf_mark_ne_nil_iff (r : SignedRecord) (k : Kind) :
    r.fields.valuesOf k.mark ≠ [] ↔ r.kind = k := by
  rw [valuesOf_fields]
  constructor
  · intro h
    by_contra hk
    apply h
    apply valuesAt_eq_nil
    intro p hp he
    exact hk (eq_of_shapes_mark (he ▸ shapes_of_mem_pairs hp))
  · rintro rfl h
    obtain ⟨p, hp, hmark⟩ := r.exists_mark
    have hvalue : p.2 ∈ valuesAt r.kind.mark r.pairs := by
      rw [valuesAt, List.mem_filterMap]
      exact ⟨p, hp, if_pos hmark⟩
    rw [h] at hvalue
    cases hvalue

theorem kind_eq_of_encode_eq {a b : SignedRecord} (h : a.fields.encode = b.fields.encode) :
    a.kind = b.kind := by
  rw [← valuesOf_mark_ne_nil_iff, Fields.encode_eq_iff.1 h, valuesOf_mark_ne_nil_iff]

/-- Records of different kinds never have one text, whatever names and contents they hold; so a signature
that a record of one kind accepts is refused by every record of another kind, as far as their digests do
not collide. -/
theorem kinds_apart {a b : SignedRecord} (h : a.kind ≠ b.kind) :
    a.fields.encode ≠ b.fields.encode ∧
      ∀ secret signature,
        (a.fields.digest secret = b.fields.digest secret → a.fields.encode = b.fields.encode) →
        a.verify secret signature = .ok () →
          b.verify secret signature = .error (.mismatch b.kind.name) := by
  have htext : a.fields.encode ≠ b.fields.encode := fun htext => h (kind_eq_of_encode_eq htext)
  refine ⟨htext, ?_⟩
  intro secret signature huncollided haccepted
  rw [verify_eq, Fields.verify_eq_ok_iff] at haccepted
  rw [verify_eq, Fields.verify, haccepted]
  exact if_neg fun hdigest => htext (huncollided hdigest)

/-- A problem type and a commit that hold the same files: the commit refuses the signature of the problem
type. -/
theorem python3_fizzbuzz_apart :
    let files : KeyMap Bytes := .ofList [("score", [49]), ("image", [50])]
    let t : SignedRecord := .problemType { Bundle.python3 with files }
    let c : SignedRecord := .commit { Bundle.fizzbuzzCommit with files } ⟨"", "", "localhost", 42⟩
    t.kind ≠ c.kind ∧ t.fields.encode ≠ c.fields.encode ∧
      ((t.fields.digest [115] = c.fields.digest [115] → t.fields.encode = c.fields.encode) →
        c.verify [115] (t.fields.sign [115]) = .error (.mismatch "commit")) := by
  intro files t c
  have hkind : t.kind ≠ c.kind := by decide
  obtain ⟨htext, hrefused⟩ := kinds_apart hkind
  refine ⟨hkind, htext, ?_⟩
  intro huncollided
  have haccepted : t.verify [115] (t.fields.sign [115]) = .ok () := by
    rw [verify_eq]
    exact Fields.verify_sign ..
  exact hrefused [115] _ huncollided haccepted

end SignedRecord

end Proctor
