import Mathlib.Data.List.Nodup
import Proctor.Proofs.Admission
import Proctor.Proofs.ProblemText
import Proctor.Proofs.SignedCommit

/-!
What signatures settle about a run. They settle everything but the files of the selected step: steps that
bear its number are signed column by column, so contents can move among them, and they can trade places
with other steps. Main statement: two bundles with the same signatures run the same whenever no content
that counts can move, and only then.
-/

namespace Proctor

open Signature

/-- All that a session runs. -/
structure Plan where
  image : String
  command : String
  judge : String
  interactive : Bool
  limits : Limits
  downloads : List String
  files : KeyMap Bytes

/-- Two bundles carry the same signatures, for the same host and user. -/
structure Bundle.SameSignatures (b b' : Bundle) : Prop where
  problemType : b.problemTypeSignature = b'.problemTypeSignature
  problem : b.problemSignature = b'.problemSignature
  hostname : b.hostname = b'.hostname
  userId : b.userId = b'.userId
  commit : b.commitSignature = b'.commitSignature

namespace Admitted

def plan (a : Admitted) : Plan where
  image := a.problemType.image
  command := a.action.command
  judge := a.action.judge
  interactive := a.action.interactive
  limits := a.limits
  downloads := a.problem.downloadPatterns
  files := a.files

def context (a : Admitted) : CommitContext :=
  ⟨a.problemTypeSignature, a.problemSignature, a.hostname, a.userId⟩

/-- No two texts that stand for the same part have one digest and differ. -/
structure Uncollided (secret : Bytes) (a a' : Admitted) : Prop where
  problemType : a.problemType.signedFields.digest secret = a'.problemType.signedFields.digest secret →
    a.problemType.signedFields.encode = a'.problemType.signedFields.encode
  problem : (a.problem.signedFields a.steps).digest secret =
      (a'.problem.signedFields a'.steps).digest secret →
    (a.problem.signedFields a.steps).encode = (a'.problem.signedFields a'.steps).encode
  commit : (a.commit.signedFields a.context).digest secret =
      (a'.commit.signedFields a'.context).digest secret →
    (a.commit.signedFields a.context).encode = (a'.commit.signedFields a'.context).encode

/-- The steps with the number of the selected one. -/
def peers (a : Admitted) : List Step :=
  Step.numbered a.commit.step a.steps

/-- A step that can stand where the selected one stands among some others, which are `count` steps in all:
there are places enough before it and after it for its peers, and its type fits. -/
def Fits (a : Admitted) (before after : List Step) (s : Step) : Prop :=
  (before.length : Int) < a.commit.step ∧ after.length + a.commit.step ≤ a.steps.length ∧
    s.problemType = a.problemType.name

/-- A path that no file of the commit and no template has. -/
def Open (a : Admitted) (path : String) : Prop :=
  a.commit.files.find? path = none ∧ a.problemType.files.find? path = none

/-- No content that counts can move: of the peers all have a path or none has, and those that fit in the
place of the selected one have its content. -/
def Pinned (a : Admitted) : Prop :=
  ∀ path, a.Open path →
    (∀ s ∈ a.peers, s.files.find? path = none) ∨
    (∀ s ∈ a.peers, (s.files.find? path).isSome) ∧
      ∀ before s after, a.peers = before ++ s :: after → a.Fits before after s →
        s.files.find? path = a.step.files.find? path

theorem find?_files (a : Admitted) (path : String) :
    a.files.find? path = (a.problemType.files.find? path).or
      ((a.commit.files.find? path).or (a.step.files.find? path)) := by
  rw [files, KeyMap.find?_union, KeyMap.find?_union]

end Admitted

namespace Step

theorem numbered_append (number : Int) (steps steps' : List Step) :
    numbered number (steps ++ steps') = numbered number steps ++ numbered number steps' :=
  List.filter_append steps steps'

/-- Steps with the same columns for every number are as many. -/
theorem length_eq_of_sameColumns {steps steps' : List Step}
    (h : ∀ number, SameColumns (numbered number steps) (numbered number steps')) :
    steps.length = steps'.length := by
  have hperm : (steps.map (·.step)).Perm (steps'.map (·.step)) := by
    rw [List.perm_iff_count]
    intro number
    rw [count_number, count_number, (h number).length_eq]
  simpa using hperm.length_eq

/-- The steps of a number around one of them. -/
theorem numbered_eq_append {steps : List Step} {i : Nat} {s : Step} (h : steps[i]? = some s) :
    ∃ before after, numbered s.step steps = before ++ s :: after ∧ before.length ≤ i ∧
      after.length + i + 1 ≤ steps.length := by
  obtain ⟨hi, hs⟩ := List.getElem?_eq_some_iff.1 h
  have hsplit : steps = steps.take i ++ s :: steps.drop (i + 1) := by
    rw [← hs, ← List.drop_eq_getElem_cons hi, List.take_append_drop]
  have hbefore := List.length_filter_le (·.step = s.step) (steps.take i)
  have hafter := List.length_filter_le (·.step = s.step) (steps.drop (i + 1))
  rw [List.length_take] at hbefore
  rw [List.length_drop] at hafter
  refine ⟨numbered s.step (steps.take i), numbered s.step (steps.drop (i + 1)), ?_, ?_, ?_⟩
  · conv_lhs => rw [hsplit]
    simp [numbered]
  · rw [numbered]
    omega
  · rw [numbered]
    omega

/-- The step with another content, or none, at a path. -/
def withFile (path : String) (s : Step) (content : Option Bytes) : Step :=
  { s with files := content.elim (s.files.erase path) (s.files.insert path) }

theorem find?_withFile (path : String) (s : Step) (content : Option Bytes) (path' : String) :
    (s.withFile path content).files.find? path' =
      if path' = path then content else s.files.find? path' := by
  cases content with
  | none => exact KeyMap.find?_erase _ _ _
  | some c => exact KeyMap.find?_insert _ _ _ _

/-- Contents of one path can be dealt anew among steps as long as they stay in their order. -/
theorem sameColumns_withFile {steps : List Step} {path : String} {contents : List (Option Bytes)}
    (hlength : steps.length = contents.length)
    (hcontents : contents.reduceOption = steps.filterMap (·.files.find? path)) :
    SameColumns steps (steps.zipWith (withFile path) contents) := by
  have column {γ : Type} (g : Step → γ) (hg : ∀ s content, g (s.withFile path content) = g s) :
      steps.map g = (steps.zipWith (withFile path) contents).map g :=
    (map_zipWith_left hg hlength).symm
  have values {γ : Type} (g : Step → Option γ)
      (hg : ∀ s content, g (s.withFile path content) = g s) :
      steps.filterMap g = (steps.zipWith (withFile path) contents).filterMap g := by
    rw [← reduceOption_map_eq, ← reduceOption_map_eq, column g hg]
  constructor
  case problemType => exact column (·.problemType) fun _ _ => rfl
  case note => exact column (·.note) fun _ _ => rfl
  case weight => exact column (·.weight.plainText) fun _ _ => rfl
  case whitelist => exact fun path' => values (·.whitelist.find? path') fun _ _ => rfl
  case solution => exact fun path' => values (·.solution.find? path') fun _ _ => rfl
  case files =>
    intro path'
    by_cases h : path' = path
    · subst h
      have hown (s : Step) (content : Option Bytes) :
          (s.withFile path' content).files.find? path' = content := by
        rw [find?_withFile, if_pos rfl]
      rw [← hcontents, ← reduceOption_map_eq, map_zipWith_right hown hlength]
    · have hother (s : Step) (content : Option Bytes) :
          (s.withFile path content).files.find? path' = s.files.find? path' := by
        rw [find?_withFile, if_neg h]
      exact values (·.files.find? path') hother

end Step

namespace Bundle

theorem stepAt?_eq_some {steps : List Step} {position : Int} {s : Step}
    (h : stepAt? steps position = some s) : 1 ≤ position ∧ steps[position.toNat - 1]? = some s := by
  unfold stepAt? at h
  split at h
  · exact ⟨‹_›, h⟩
  · cases h

variable {b b' : Bundle} {route : Route} {secret : Bytes} {host : String} {now : Instant}
  {a a' : Admitted}

/-- The selected step is one of its peers, in a place where it fits. -/
theorem Admits.exists_peers (h : b.Admits route secret host now a) :
    ∃ before after, a.peers = before ++ a.step :: after ∧ a.Fits before after a.step := by
  have hstep := h.step
  rw [h.steps] at hstep
  obtain ⟨hone, hget⟩ := stepAt?_eq_some hstep
  obtain ⟨before, after, hpeers, hbefore, hafter⟩ := Step.numbered_eq_append hget
  rw [h.step_number] at hpeers
  exact ⟨before, after, hpeers, by omega, by omega, h.step_problemType⟩

/-- What the signatures tell when no digests collide: all parts but the steps, and of these the columns
for every number. -/
theorem Admits.parts_eq (h : b.Admits route secret host now a) (h' : b'.Admits route secret host now a')
    (hsame : b.SameSignatures b') (hdigests : a.Uncollided secret a') :
    a.problemType = a'.problemType ∧ a.action = a'.action ∧
      a.problem.options = a'.problem.options ∧ a.commit.step = a'.commit.step ∧
      a.commit.files = a'.commit.files ∧
      ∀ number, Step.SameColumns (Step.numbered number a.steps) (Step.numbered number a'.steps) := by
  have htype : a.problemType = a'.problemType := by
    apply ProblemType.encode_signedFields_injective
    apply hdigests.problemType
    have hverified' := h'.problemTypeVerified
    rw [← hsame.problemType] at hverified'
    exact Fields.digest_eq_of_verify h.problemTypeVerified hverified'
  have haction : a.action = a'.action := by
    have hfind := h.action
    rw [htype, h'.action] at hfind
    exact (Option.some.inj hfind).symm
  obtain ⟨hhead, hcolumns⟩ := Problem.encode_signedFields_eq_iff.1 <| hdigests.problem <| by
    have hverified := h.problemVerified
    have hverified' := h'.problemVerified
    rw [h.steps] at hverified
    rw [h'.steps, ← hsame.problem] at hverified'
    exact Fields.digest_eq_of_verify hverified hverified'
  obtain ⟨_, hcommit⟩ := Commit.sameSigned_of_encode_eq <| hdigests.commit <| by
    have hcontext : b.context = a.context := by
      simp [context, Admitted.context, h.problemTypeSignature, h.problemSignature, h.hostname, h.userId]
    have hcontext' : b'.context = a'.context := by
      simp [context, Admitted.context, h'.problemTypeSignature, h'.problemSignature, h'.hostname,
        h'.userId]
    have hverified := h.commitVerified
    have hverified' := h'.commitVerified
    rw [hcontext] at hverified
    rw [hcontext', ← hsame.commit] at hverified'
    exact Fields.digest_eq_of_verify hverified hverified'
  exact ⟨htype, haction, hhead.options, hcommit.step, hcommit.files, hcolumns⟩

/-- Where nothing can move, the signatures settle the plan. -/
theorem Admits.plan_eq_of_pinned (h : b.Admits route secret host now a)
    (h' : b'.Admits route secret host now a') (hsame : b.SameSignatures b')
    (hdigests : a.Uncollided secret a') (hpinned : a.Pinned) : a'.plan = a.plan := by
  obtain ⟨htype, haction, hoptions, hstep, hfiles, hcolumns⟩ := h.parts_eq h' hsame hdigests
  have hpeers : Step.SameColumns a.peers a'.peers := by
    rw [Admitted.peers, Admitted.peers, ← hstep]
    exact hcolumns a.commit.step
  obtain ⟨before, after, hsplit, _⟩ := h.exists_peers
  obtain ⟨before', after', hsplit', hfits'⟩ := h'.exists_peers
  -- the peer of `b` at the place of the selected step of `b'`
  obtain ⟨before₁, s, after₁, hsplit₁, hbefore₁, hs, hafter₁⟩ : ∃ before₁ s after₁,
      a.peers = before₁ ++ s :: after₁ ∧ before₁.length = before'.length ∧
        s.problemType = a'.step.problemType ∧ after₁.length = after'.length := by
    have htypes := hpeers.problemType
    rw [hsplit', List.map_append, List.map_cons, List.map_eq_append_iff] at htypes
    obtain ⟨before₁, rest, hrest, hbefore₁, htail⟩ := htypes
    obtain ⟨s, after₁, rfl, hs, hafter₁⟩ := List.map_eq_cons_iff.1 htail
    exact ⟨before₁, s, after₁, hrest, by simpa using congrArg List.length hbefore₁, hs,
      by simpa using congrArg List.length hafter₁⟩
  have hfits₁ : a.Fits before₁ after₁ s := by
    obtain ⟨hbefore', hafter', htype'⟩ := hfits'
    rw [← hstep, ← Step.length_eq_of_sameColumns hcolumns] at hafter'
    rw [← hstep] at hbefore'
    exact ⟨by omega, by omega, by rw [hs, htype', htype]⟩
  have hopen (path : String) (hpath : a.Open path) :
      a'.step.files.find? path = a.step.files.find? path := by
    rcases hpinned path hpath with hnone | ⟨hall, hfit⟩
    · have hcolumn := hpeers.files path
      rw [List.filterMap_eq_nil_iff.2 hnone] at hcolumn
      have hnone' := List.filterMap_eq_nil_iff.1 hcolumn.symm
      rw [hnone' a'.step (by simp [hsplit']), hnone a.step (by simp [hsplit])]
    · have hmap := map_eq_of_filterMap_eq hpeers.length_eq hall (hpeers.files path)
      rw [hsplit₁, hsplit', List.map_append, List.map_append, List.map_cons, List.map_cons] at hmap
      have hcons := (List.append_inj hmap (by simpa using hbefore₁)).2
      rw [List.cons.injEq] at hcons
      rw [← hcons.1, hfit before₁ s after₁ hsplit₁ hfits₁]
  have hallFiles : a'.files = a.files := by
    apply KeyMap.ext_find?
    intro path
    rw [Admitted.find?_files, Admitted.find?_files, ← htype, ← hfiles]
    cases htemplate : a.problemType.files.find? path with
    | some c => rfl
    | none =>
      cases hcommit : a.commit.files.find? path with
      | some c => rfl
      | none => rw [hopen path ⟨hcommit, htemplate⟩]
  simp only [Admitted.plan, Admitted.limits, Problem.downloadPatterns, hallFiles, ← htype, ← haction,
    ← hoptions]

/-- Peers with the same columns can take the place of those of an admitted bundle, with any of them that
fits as the selected one: the texts stay the same, and so do the signatures. -/
theorem Admits.exists_of_columns (h : b.Admits route secret host now a) {before after : List Step}
    {s : Step} (hcolumns : Step.SameColumns a.peers (before ++ s :: after))
    (hnumbers : ∀ t ∈ before ++ s :: after, t.step = a.commit.step)
    (hfits : a.Fits before after s) :
    ∃ b' a', b'.Admits route secret host now a' ∧ b.SameSignatures b' ∧ a.Uncollided secret a' ∧
      a'.commit = a.commit ∧ a'.problemType = a.problemType ∧ a'.step = s := by
  obtain ⟨hbefore, hafter, htype⟩ := hfits
  let others := a.steps.filter fun t => !decide (t.step = a.commit.step)
  let j := a.commit.step.toNat - 1 - before.length
  let steps := before ++ others.take j ++ (s :: after ++ others.drop j)
  have hbeforeNumbers (t : Step) (ht : t ∈ before) : t.step = a.commit.step :=
    hnumbers t (List.mem_append_left _ ht)
  have hafterNumbers (t : Step) (ht : t ∈ s :: after) : t.step = a.commit.step :=
    hnumbers t (List.mem_append_right _ ht)
  have hpeers : Step.numbered a.commit.step steps = before ++ s :: after := by
    have hown (l : List Step) (hl : ∀ t ∈ l, t.step = a.commit.step) :
        Step.numbered a.commit.step l = l :=
      List.filter_eq_self.2 fun t ht => decide_eq_true (hl t ht)
    have hother (l : List Step) (hl : ∀ t ∈ l, t ∈ others) : Step.numbered a.commit.step l = [] := by
      apply List.filter_eq_nil_iff.2
      intro t ht
      simpa using (List.mem_filter.1 (hl t ht)).2
    rw [Step.numbered_append, Step.numbered_append, Step.numbered_append, hown _ hbeforeNumbers,
      hother _ (fun t => List.mem_of_mem_take), hown _ hafterNumbers,
      hother _ (fun t => List.mem_of_mem_drop), List.append_nil, List.append_nil]
  have hrest (number : Int) (hne : number ≠ a.commit.step) :
      Step.numbered number steps = Step.numbered number a.steps := by
    have hown (l : List Step) (hl : ∀ t ∈ l, t.step = a.commit.step) :
        Step.numbered number l = [] := by
      apply List.filter_eq_nil_iff.2
      intro t ht
      simpa [hl t ht] using hne.symm
    have hothers : Step.numbered number others = Step.numbered number a.steps := by
      rw [Step.numbered, List.filter_filter]
      apply List.filter_congr
      intro t _
      by_cases ht : t.step = number <;> simp [ht, hne]
    rw [Step.numbered_append, Step.numbered_append, Step.numbered_append, hown _ hbeforeNumbers,
      hown _ hafterNumbers, List.nil_append, List.nil_append, ← Step.numbered_append,
      List.take_append_drop, hothers]
  have hselected : stepAt? steps a.commit.step = some s := by
    have hsplit : a.steps.length = a.peers.length + others.length :=
      List.length_eq_length_filter_add (fun t : Step => decide (t.step = a.commit.step))
    have hcount := hcolumns.length_eq
    rw [List.length_append, List.length_cons] at hcount
    have hplace : a.commit.step.toNat - 1 = (before ++ others.take j).length := by
      rw [List.length_append, List.length_take]
      omega
    rw [stepAt?, if_pos (by omega), hplace, List.getElem?_append_right (Nat.le_refl _)]
    simp
  have hencode : (a.problem.signedFields a.steps).encode = (a.problem.signedFields steps).encode := by
    rw [Problem.encode_signedFields_eq_iff]
    refine ⟨⟨rfl, rfl, rfl, rfl, rfl, rfl, rfl, rfl⟩, ?_⟩
    intro number
    by_cases hnumber : number = a.commit.step
    · subst hnumber
      rw [hpeers]
      exact hcolumns
    · rw [hrest number hnumber]
      exact .refl _
  have hverified : a.problem.verify steps secret b.problemSignature = .ok () := by
    have hproblem := h.problemVerified
    rw [h.steps, Problem.verify, Fields.verify_eq_ok_iff, Fields.digest, hencode] at hproblem
    rw [Problem.verify, Fields.verify_eq_ok_iff, Fields.digest, hproblem]
  refine ⟨{ b with steps }, { a with steps, step := s }, ?_, ⟨rfl, rfl, rfl, rfl, rfl⟩,
    ⟨fun _ => rfl, fun _ => hencode, fun _ => rfl⟩, rfl, rfl, rfl⟩
  exact { h with
    steps := rfl
    steps_ne := by simp [steps]
    problemVerified := hverified
    step := hselected
    step_number := hnumbers s (by simp)
    step_problemType := htype }

/-- Where something can move, two plans have the same signatures. -/
theorem Admits.pinned_of_plan_eq (h : b.Admits route secret host now a)
    (hplan : ∀ b' a', b'.Admits route secret host now a' → b.SameSignatures b' →
      a.Uncollided secret a' → a'.plan = a.plan) : a.Pinned := by
  intro path hopen
  have settled {before after : List Step} {s : Step}
      (hcolumns : Step.SameColumns a.peers (before ++ s :: after))
      (hnumbers : ∀ t ∈ before ++ s :: after, t.step = a.commit.step)
      (hfits : a.Fits before after s) : s.files.find? path = a.step.files.find? path := by
    obtain ⟨b', a', h', hsame, hdigests, hcommit, htype, rfl⟩ :=
      h.exists_of_columns hcolumns hnumbers hfits
    have hfiles : a'.files.find? path = a.files.find? path :=
      congrArg (fun p => p.files.find? path) (hplan b' a' h' hsame hdigests)
    rw [Admitted.find?_files, Admitted.find?_files, hcommit, htype, hopen.1, hopen.2] at hfiles
    exact hfiles
  have hnumbers (t : Step) (ht : t ∈ a.peers) : t.step = a.commit.step := by
    simpa using (List.mem_filter.1 ht).2
  by_cases hnone : ∀ s ∈ a.peers, s.files.find? path = none
  · exact .inl hnone
  refine .inr ⟨?_, ?_⟩
  · by_contra hsome
    obtain ⟨before, after, hsplit, hfits⟩ := h.exists_peers
    have hvalues : a.peers.filterMap (·.files.find? path) ≠ [] := fun he =>
      hnone (List.filterMap_eq_nil_iff.1 he)
    have hgap : (a.peers.filterMap (·.files.find? path)).length < a.peers.length := by
      apply List.length_filterMap_lt_length_iff_exists.2
      simpa using hsome
    have hlength : a.peers.length = before.length + 1 + after.length := by
      rw [hsplit, List.length_append, List.length_cons]
      omega
    -- the selected step gets a gap where it has a content, and a content where it has none
    obtain ⟨o₁, o₂, x, ho₁, ho₂, hx, ho⟩ : ∃ (o₁ o₂ : List (Option Bytes)) (x : Option Bytes),
        o₁.length = before.length ∧ o₂.length = after.length ∧
          x ≠ a.step.files.find? path ∧
          (o₁ ++ x :: o₂).reduceOption = a.peers.filterMap (·.files.find? path) := by
      cases hcontent : a.step.files.find? path with
      | some c =>
        obtain ⟨o₁, o₂, ho₁, ho₂, ho⟩ := exists_gap (p := before.length) (q := after.length)
          (l := a.peers.filterMap (·.files.find? path)) (by omega)
        exact ⟨o₁, o₂, none, ho₁, ho₂, by simp, ho⟩
      | none =>
        obtain ⟨o₁, o₂, c, ho₁, ho₂, ho⟩ := exists_value (p := before.length) (q := after.length)
          hvalues (by omega)
        exact ⟨o₁, o₂, some c, ho₁, ho₂, by simp, ho⟩
    have hpeers : a.peers.length = (o₁ ++ x :: o₂).length := by
      rw [hlength, List.length_append, List.length_cons]
      omega
    have hcolumns := Step.sameColumns_withFile hpeers ho
    have hsteps := map_zipWith_left (f := Step.withFile path) (g := fun s : Step => s.step)
      (fun _ _ => rfl) hpeers
    have hdealt : a.peers.zipWith (Step.withFile path) (o₁ ++ x :: o₂) =
        before.zipWith (Step.withFile path) o₁ ++
          a.step.withFile path x :: after.zipWith (Step.withFile path) o₂ := by
      rw [hsplit, List.zipWith_append ho₁.symm, List.zipWith_cons_cons]
    rw [hdealt] at hcolumns hsteps
    have hmoved := settled hcolumns (fun t ht => by
        have hmem := List.mem_map_of_mem (f := fun s : Step => s.step) ht
        rw [hsteps] at hmem
        obtain ⟨u, hu, hut⟩ := List.mem_map.1 hmem
        rw [← hut, hnumbers u hu]) (by
      obtain ⟨hbefore, hafter, htype⟩ := hfits
      exact ⟨by simpa [ho₁] using hbefore, by simpa [ho₂] using hafter, htype⟩)
    rw [Step.find?_withFile, if_pos rfl] at hmoved
    exact hx hmoved
  · intro before s after hsplit hfits
    exact settled (hsplit ▸ .refl _) (hsplit ▸ hnumbers) hfits

/-- The signatures of an admitted bundle settle what it runs, as far as no digests collide, exactly when no
content that counts can move among the steps that bear the number of the selected one. -/
theorem signatures_settle_plan_iff (h : b.admission route secret host now = .ok a) :
    (∀ b' a', b'.admission route secret host now = .ok a' → b.SameSignatures b' →
      a.Uncollided secret a' → a'.plan = a.plan) ↔ a.Pinned := by
  have hadmits := admits_of_admission h
  constructor
  · intro hplan
    apply hadmits.pinned_of_plan_eq
    intro b' a' h' hsame hdigests
    exact hplan b' a' (admission_of_admits h') hsame hdigests
  · intro hpinned b' a' h' hsame hdigests
    exact hadmits.plan_eq_of_pinned (admits_of_admission h') hsame hdigests hpinned

/-- Nothing can move where every step has a number of its own. -/
theorem Admits.pinned_of_nodup (h : b.Admits route secret host now a)
    (hnodup : (a.steps.map (·.step)).Nodup) : a.Pinned := by
  obtain ⟨before, after, hsplit, _⟩ := h.exists_peers
  have hone := List.nodup_iff_count_le_one.1 hnodup a.commit.step
  rw [Step.count_number, ← Admitted.peers, hsplit, List.length_append, List.length_cons] at hone
  have hbefore : before = [] := List.length_eq_zero_iff.1 (by omega)
  have hafter : after = [] := List.length_eq_zero_iff.1 (by omega)
  rw [hbefore, hafter, List.nil_append] at hsplit
  intro path _
  cases hcontent : a.step.files.find? path with
  | none =>
    refine .inl ?_
    intro s hs
    rw [hsplit, List.mem_singleton] at hs
    rw [hs, hcontent]
  | some c =>
    refine .inr ⟨?_, ?_⟩
    · intro s hs
      rw [hsplit, List.mem_singleton] at hs
      rw [hs, hcontent, Option.isSome_some]
    · intro before' s after' hsplit' _
      have hs : s ∈ a.peers := by simp [hsplit']
      rw [hsplit, List.mem_singleton] at hs
      rw [hs, hcontent]

theorem fizzbuzz_plan_settled :
    let step : Step := { step := 1, problemType := "python3" }
    let b := (fizzbuzz [step]).sign [115]
    ∃ a, b.admission ⟨"python3", "grade"⟩ [115] "localhost" (.ofSeconds 30) = .ok a ∧
      ∀ b' a', b'.admission ⟨"python3", "grade"⟩ [115] "localhost" (.ofSeconds 30) = .ok a' →
        b.SameSignatures b' → a.Uncollided [115] a' → a'.plan = a.plan := by
  intro step b
  have hadmits := fizzbuzz_admits step [] [115] rfl rfl
  have hpinned := hadmits.pinned_of_nodup (List.nodup_singleton 1)
  have h := admission_of_admits hadmits
  exact ⟨_, h, (signatures_settle_plan_iff h).2 hpinned⟩

/-- Two steps that bear one number, with a file in the first or in the second of them, have the same text
but do not run the same. -/
theorem fizzbuzz_file_moved :
    let route : Route := ⟨"python3", "grade"⟩
    let tested : Step := { step := 1, problemType := "python3", files := .ofList [("test.py", [49])] }
    let bare : Step := { step := 1, problemType := "python3" }
    let b := (fizzbuzz [tested, bare]).sign [115]
    let b' := (fizzbuzz [bare, tested]).sign [115]
    ∃ a a', b.admission route [115] "localhost" (.ofSeconds 30) = .ok a ∧
      b'.admission route [115] "localhost" (.ofSeconds 30) = .ok a' ∧
      b.SameSignatures b' ∧ a.Uncollided [115] a' ∧ a'.plan ≠ a.plan := by
  intro route tested bare b b'
  have hadmits := fizzbuzz_admits tested [bare] [115] rfl rfl
  have hadmits' := fizzbuzz_admits bare [tested] [115] rfl rfl
  have hencode : (fizzbuzzProblem.signedFields [tested, bare]).encode =
      (fizzbuzzProblem.signedFields [bare, tested]).encode := by
    rw [Problem.encode_signedFields_eq_iff]
    refine ⟨⟨rfl, rfl, rfl, rfl, rfl, rfl, rfl, rfl⟩, ?_⟩
    intro number
    by_cases hnumber : 1 = number
    · subst hnumber
      refine ⟨rfl, rfl, rfl, ?_, fun _ => rfl, fun _ => rfl⟩
      intro path
      have hbare : bare.files.find? path = none := rfl
      cases htested : tested.files.find? path with
      | none => simp [Step.numbered, tested, bare, htested, hbare]
      | some c => simp [Step.numbered, tested, bare, htested, hbare]
    · have hnone : Step.numbered number [tested, bare] = Step.numbered number [bare, tested] := by
        simp [Step.numbered, tested, bare, hnumber]
      rw [hnone]
      exact .refl _
  have hsign : fizzbuzzProblem.sign [tested, bare] [115] = fizzbuzzProblem.sign [bare, tested] [115] := by
    rw [Problem.sign, Problem.sign, Fields.sign, Fields.sign, Fields.digest, Fields.digest, hencode]
  have hsame : b.SameSignatures b' := by
    constructor
    case problem => exact hsign
    case commit =>
      exact congrArg (fun signature => fizzbuzzCommit.sign
        ⟨python3.sign [115], signature, "localhost", 42⟩ [115]) hsign
    all_goals rfl
  have hcontext : (fizzbuzzAdmitted tested [bare] [115]).context =
      (fizzbuzzAdmitted bare [tested] [115]).context := by
    simp only [Admitted.context, fizzbuzzAdmitted, hsign]
  refine ⟨_, _, admission_of_admits hadmits, admission_of_admits hadmits', hsame,
    ⟨fun _ => rfl, fun _ => hencode, fun _ => ?_⟩, ?_⟩
  · rw [hcontext]
    rfl
  · intro hplan
    have hfile := congrArg (fun p => p.files.find? "test.py") hplan
    simp only [Admitted.plan, Admitted.find?_files] at hfile
    simp [fizzbuzzAdmitted, python3, fizzbuzzCommit, tested, bare, KeyMap.find?_ofList] at hfile

end Bundle

end Proctor
