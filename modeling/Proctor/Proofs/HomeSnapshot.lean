import Proctor.Proofs.MemoryEngine
import Proctor.Proofs.PackedFiles
import Proctor.Proofs.SandboxLife

/-!
Files that are asked for in a sandbox. The first time the home directory is copied out, and whatever happens
in the sandbox after that, files are selected from this copy.

Main statement: `files_of_first_home`, for every engine, every state of a sandbox and all that is asked of it
later.
-/

namespace Proctor

variable {σ : Type}

namespace Running

/-! ### Selections -/

/-- Files that a pattern accepts, none when it is malformed. -/
def matching (pattern : String) (files : KeyMap Bytes) : KeyMap Bytes :=
  match Glob.parse? pattern with
  | some tokens => files.filter fun name _ => Glob.accepts tokens name
  | none => .empty

theorem select_append (patterns patterns' : List String) (files : KeyMap Bytes) :
    select (patterns ++ patterns') files = (select patterns files).union (select patterns' files) := by
  apply KeyMap.ext_find?
  intro name
  simp only [select, List.filterMap_append, List.any_append, KeyMap.find?_union, KeyMap.find?_filter]
  cases files.find? name with
  | none => rfl
  | some data =>
    simp only [Option.filter_some]
    cases (patterns.filterMap Glob.parse?).any (Glob.accepts · name) <;>
      cases (patterns'.filterMap Glob.parse?).any (Glob.accepts · name) <;> rfl

theorem select_singleton (pattern : String) (files : KeyMap Bytes) :
    select [pattern] files = matching pattern files := by
  unfold select matching
  cases hparse : Glob.parse? pattern with
  | some tokens => simp [hparse]
  | none =>
    apply KeyMap.ext_find?
    intro name
    simp [hparse, KeyMap.find?_filter]

/-- What any of some patterns accepts, one pattern after another. -/
def matchingAny (patterns : List String) (files : KeyMap Bytes) : KeyMap Bytes :=
  patterns.foldl (fun selected pattern => selected.union (matching pattern files)) .empty

theorem select_eq_matchingAny (patterns : List String) (files : KeyMap Bytes) :
    select patterns files = matchingAny patterns files := by
  induction patterns using List.reverseRecOn with
  | nil =>
    apply KeyMap.ext_find?
    intro name
    simp [select, matchingAny, KeyMap.find?_filter]
  | append_singleton patterns pattern ih =>
    rw [select_append, select_singleton, ih, matchingAny, matchingAny, List.foldl_append]
    rfl

theorem matchingAny_append (patterns patterns' : List String) (files : KeyMap Bytes) :
    matchingAny (patterns ++ patterns') files =
      (matchingAny patterns files).union (matchingAny patterns' files) := by
  simp only [← select_eq_matchingAny, select_append]

/-! ### Where files come from -/

/-- The home directory that files are selected from: the one that is kept, or else a copy. -/
inductive HasHome (e : Engine σ) (r : Running σ) : KeyMap Bytes → Prop
  | kept {files : KeyMap Bytes} (hkept : r.sandbox.snapshot = some files) : HasHome e r files
  | copied {archive : Bytes} {files : KeyMap Bytes} (hnone : r.sandbox.snapshot = none)
      (hopen : r.sandbox.closed = false)
      (hcopy : (e.copyOut r.sandbox.name r.sandbox.uid r.world.engine).1 = .ok archive)
      (hunpack : unpacked archive = .ok files) : HasHome e r files

/-- What stands in the way of a copy of the home directory. -/
inductive LacksHome (e : Engine σ) (r : Running σ) : EngineError → Prop
  | shutDown (hclosed : r.sandbox.closed = true) : LacksHome e r r.shutDownError
  | copyOut {error : EngineError} (hopen : r.sandbox.closed = false)
      (hcopy : (e.copyOut r.sandbox.name r.sandbox.uid r.world.engine).1 = .error error) :
      LacksHome e r error
  | unpack {archive : Bytes} {error : EngineError} (hopen : r.sandbox.closed = false)
      (hcopy : (e.copyOut r.sandbox.name r.sandbox.uid r.world.engine).1 = .ok archive)
      (hunpack : unpacked archive = .error error) : LacksHome e r error

variable (e : Engine σ) {r : Running σ} {files : KeyMap Bytes}

theorem snapshot_cases (r : Running σ) :
    (∃ files, HasHome e r files ∧ (r.snapshot e).1 = .ok files ∧
        (r.snapshot e).2.sandbox.snapshot = some files) ∨
      ∃ error, r.sandbox.snapshot = none ∧ LacksHome e r error ∧ (r.snapshot e).1 = .error error ∧
        (r.snapshot e).2.sandbox.snapshot = none := by
  unfold snapshot
  cases hkept : r.sandbox.snapshot with
  | some files => exact .inl ⟨files, .kept hkept, rfl, hkept⟩
  | none =>
    cases hclosed : r.sandbox.closed with
    | true => exact .inr ⟨_, rfl, .shutDown hclosed, rfl, hkept⟩
    | false =>
      simp only [Bool.false_eq_true, if_false]
      cases hcopy : (e.copyOut r.sandbox.name r.sandbox.uid r.world.engine).1 with
      | error error => exact .inr ⟨error, trivial, .copyOut hclosed hcopy, rfl, hkept⟩
      | ok archive =>
        have hbind : (Except.ok archive).bind unpacked = unpacked archive := rfl
        rw [hbind]
        cases hunpack : unpacked archive with
        | error error => exact .inr ⟨error, trivial, .unpack hclosed hcopy hunpack, rfl, hkept⟩
        | ok files => exact .inl ⟨files, .copied hkept hclosed hcopy hunpack, rfl, rfl⟩

variable {e} in
theorem HasHome.snapshot_eq_ok (h : HasHome e r files) : (r.snapshot e).1 = .ok files := by
  cases h with
  | kept hkept => simp only [snapshot, hkept]
  | copied hnone hopen hcopy hunpack =>
    simp only [snapshot, hnone, hopen, Bool.false_eq_true, if_false, hcopy, Except.bind, hunpack]

variable {e} in
/-- Whatever stands in the way of a copy is the fault. -/
theorem LacksHome.snapshot_eq_error {error : EngineError} (h : LacksHome e r error)
    (hnone : r.sandbox.snapshot = none) : (r.snapshot e).1 = .error error := by
  simp only [snapshot, hnone]
  cases h with
  | shutDown hclosed => rw [if_pos hclosed]
  | copyOut hopen hcopy => simp only [hopen, Bool.false_eq_true, if_false, hcopy, Except.bind]
  | unpack hopen hcopy hunpack =>
    simp only [hopen, Bool.false_eq_true, if_false, hcopy, Except.bind, hunpack]

theorem getFiles_nil (r : Running σ) : r.getFiles e [] = (.ok .empty, r) :=
  rfl

theorem getFiles_of_ne_nil {patterns : List String} (hpatterns : patterns ≠ []) (r : Running σ) :
    r.getFiles e patterns = (r.snapshot e).map (·.map (matchingAny patterns)) id := by
  have hne : patterns.isEmpty = false := by simpa using hpatterns
  have hselect : select patterns = matchingAny patterns := funext (select_eq_matchingAny patterns)
  rw [getFiles_eq, hne, hselect]
  rfl

/-- A home directory that is kept answers every call, and the call changes nothing. -/
theorem getFiles_of_kept (hkept : r.sandbox.snapshot = some files) (patterns : List String) :
    r.getFiles e patterns = (.ok (matchingAny patterns files), r) := by
  by_cases hpatterns : patterns = []
  · rw [hpatterns]
    rfl
  · rw [getFiles_of_ne_nil e hpatterns]
    simp only [snapshot, hkept]
    rfl

/-! ### What happens later -/

/-- Nothing that is asked of a sandbox takes its home directory away. -/
theorem snapshot_use (hkept : r.sandbox.snapshot = some files) (use : Sandbox.Use) :
    (r.use e use).sandbox.snapshot = some files := by
  have hshutDown (r : Running σ) : (r.shutDown e).sandbox.snapshot = r.sandbox.snapshot := by
    unfold shutDown
    split <;> rfl
  cases use with
  | putFiles files mtime =>
    rw [use, putFiles]
    split
    · exact hkept
    · split
      · exact hkept
      · split <;> exact hkept
  | exec command =>
    rw [use, exec]
    split
    · exact hkept
    · simp only
      split
      · exact hkept
      · exact hkept
      · split
        · exact hkept
        · exact (hshutDown _).trans hkept
  | getFiles patterns =>
    rw [use, getFiles_of_kept e hkept]
    exact hkept
  | emit events => exact hkept
  | shutDown => exact (hshutDown r).trans hkept

theorem snapshot_useAll (hkept : r.sandbox.snapshot = some files) (uses : List Sandbox.Use) :
    (useAll e uses r).sandbox.snapshot = some files := by
  induction uses generalizing r with
  | nil => exact hkept
  | cons use uses ih => exact ih (snapshot_use e hkept use)

/-- Files can be asked for at once or one pattern after another. -/
theorem getFiles_append (patterns patterns' : List String) (r : Running σ) :
    (r.getFiles e (patterns ++ patterns')).1 = do
      let got ← (r.getFiles e patterns).1
      let got' ← ((r.getFiles e patterns).2.getFiles e patterns').1
      return got.union got' := by
  by_cases hpatterns : patterns = []
  · rw [hpatterns, List.nil_append, getFiles_nil]
    cases (r.getFiles e patterns').1 with
    | error error => rfl
    | ok got => exact congrArg Except.ok got.empty_union.symm
  · have hboth : patterns ++ patterns' ≠ [] := by simp [hpatterns]
    rw [getFiles_of_ne_nil e hpatterns, getFiles_of_ne_nil e hboth]
    obtain ⟨files, _, hfiles, hkept⟩ | ⟨error, _, _, herror, _⟩ := snapshot_cases e r
    · simp only [Prod.map, id, hfiles, getFiles_of_kept e hkept]
      exact congrArg Except.ok (matchingAny_append patterns patterns' files)
    · simp only [Prod.map, herror]
      rfl

/-- The first files that are asked for settle the home directory that all files are selected from later. -/
theorem files_of_first_home (e : Engine σ) (r : Running σ) :
    (∀ patterns got, patterns ≠ [] → (r.getFiles e patterns).1 = .ok got →
      ∃ files, HasHome e r files ∧ got = matchingAny patterns files ∧
        ∀ uses patterns', let r' := useAll e uses (r.getFiles e patterns).2
          r'.getFiles e patterns' = (.ok (matchingAny patterns' files), r')) ∧
    (∀ patterns patterns', (r.getFiles e (patterns ++ patterns')).1 = do
      let got ← (r.getFiles e patterns).1
      let got' ← ((r.getFiles e patterns).2.getFiles e patterns').1
      return got.union got') ∧
    (∀ patterns error, (r.getFiles e patterns).1 = .error error ↔
      patterns ≠ [] ∧ r.sandbox.snapshot = none ∧ LacksHome e r error) ∧
    ∀ patterns error, (r.getFiles e patterns).1 = .error error →
      (r.getFiles e patterns).2.sandbox.snapshot = none := by
  have hnil (error : EngineError) : (r.getFiles e []).1 ≠ .error error := by
    simp [getFiles_nil]
  refine ⟨?_, fun patterns patterns' => getFiles_append e patterns patterns' r, ?_, ?_⟩
  · intro patterns got hpatterns hgot
    rw [getFiles_of_ne_nil e hpatterns] at hgot ⊢
    obtain ⟨files, hhome, hfiles, hkept⟩ | ⟨error, _, _, herror, _⟩ := snapshot_cases e r
    · simp only [Prod.map, hfiles] at hgot
      cases hgot
      exact ⟨files, hhome, rfl, fun uses patterns' =>
        getFiles_of_kept e (snapshot_useAll e hkept uses) patterns'⟩
    · simp only [Prod.map, herror] at hgot
      cases hgot
  · intro patterns error
    constructor
    · intro hfault
      have hpatterns : patterns ≠ [] := fun hempty => hnil error (hempty ▸ hfault)
      rw [getFiles_of_ne_nil e hpatterns] at hfault
      obtain ⟨files, _, hfiles, _⟩ | ⟨error, hnone, hlacks, herror, _⟩ := snapshot_cases e r
      · simp only [Prod.map, hfiles] at hfault
        cases hfault
      · simp only [Prod.map, herror] at hfault
        cases hfault
        exact ⟨hpatterns, hnone, hlacks⟩
    · rintro ⟨hpatterns, hnone, hlacks⟩
      rw [getFiles_of_ne_nil e hpatterns]
      simp only [Prod.map, hlacks.snapshot_eq_error hnone]
      rfl
  · intro patterns error hfault
    have hpatterns : patterns ≠ [] := fun hempty => hnil error (hempty ▸ hfault)
    rw [getFiles_of_ne_nil e hpatterns] at hfault ⊢
    obtain ⟨files, _, hfiles, _⟩ | ⟨_, _, _, _, hnone⟩ := snapshot_cases e r
    · simp only [Prod.map, hfiles] at hfault
      cases hfault
    · exact hnone

/-- A sandbox with files in its home that were not asked for yet. -/
def unasked : Running Memory where
  sandbox := { name := "nanny-42", uid := 10000, timeout := 0 }
  world := ⟨{ homes := KeyMap.empty.insert "nanny-42" Archive.nestedFiles }, ⟨[10000]⟩⟩

theorem copyOut_unasked : ∃ archive,
    (Memory.engine.copyOut "nanny-42" 10000 unasked.world.engine).1 = .ok archive ∧
      unpacked archive = .ok Archive.nestedFiles := by
  obtain ⟨archive, hpack, hunpack⟩ :=
    Archive.exists_pack_unpack Archive.nestedFiles_names Archive.nestedFiles_held 10000 0
  refine ⟨archive, ?_, by rw [unpacked, hunpack]; rfl⟩
  rw [Memory.engine_copyOut rfl, Memory.copyOut]
  simp [unasked, packed, hpack, Except.mapError]

theorem hasHome_unasked : HasHome Memory.engine unasked Archive.nestedFiles := by
  obtain ⟨archive, hcopy, hunpack⟩ := copyOut_unasked
  exact .copied rfl rfl hcopy hunpack

/-- Files can be had after a command and after the sandbox is shut down. -/
theorem nestedFiles_asked_late :
    let r := (unasked.getFiles Memory.engine ["a*", "["]).2
    let r' := useAll Memory.engine [.exec ["make"], .shutDown] r
    (unasked.getFiles Memory.engine ["a*", "["]).1.map KeyMap.keys = .ok ["a", "a-b"] ∧
      r'.sandbox.closed = true ∧ (r'.getFiles Memory.engine ["a/*"]).1.map KeyMap.keys = .ok ["a/b"] := by
  have hpatterns : ["a*", "["] ≠ [] := List.cons_ne_nil _ _
  have hgot : (unasked.getFiles Memory.engine ["a*", "["]).1 =
      .ok (matchingAny ["a*", "["] Archive.nestedFiles) := by
    rw [getFiles_of_ne_nil Memory.engine hpatterns]
    simp only [Prod.map, hasHome_unasked.snapshot_eq_ok]
    rfl
  obtain ⟨files, hhome, _, hlater⟩ :=
    (files_of_first_home Memory.engine unasked).1 _ _ hpatterns hgot
  have hfiles : Archive.nestedFiles = files :=
    Except.ok.inj (hasHome_unasked.snapshot_eq_ok.symm.trans hhome.snapshot_eq_ok)
  subst hfiles
  have hkeys : (matchingAny ["a*", "["] Archive.nestedFiles).keys = ["a", "a-b"] ∧
      (matchingAny ["a/*"] Archive.nestedFiles).keys = ["a/b"] := by
    decide +kernel
  generalize (unasked.getFiles Memory.engine ["a*", "["]).2 = asked at hlater ⊢
  refine ⟨?_, ?_, ?_⟩
  · rw [hgot]
    exact congrArg Except.ok hkeys.1
  · have hclosed := closed_use_iff Memory.engine (useAll Memory.engine [.exec ["make"]] asked) .shutDown
    exact hclosed.2 (.inr (.inl rfl))
  · rw [hlater]
    exact congrArg Except.ok hkeys.2

end Running

end Proctor
