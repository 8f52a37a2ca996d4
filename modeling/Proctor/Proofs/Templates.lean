import Proctor.Proofs.Admission
import Proctor.Proofs.ArchiveContents
import Proctor.Proofs.MemoryEngine
import Proctor.Proofs.Uids
import Proctor.Sandbox

/-!
Templates in a sandbox. Files of a submission replace each other by name, but they are put into the home
under their clean paths, where another spelling of a template's name can come after it. Main statement: the
home of a new sandbox has a template exactly when the last spelling of its name has the same content.
-/

namespace Proctor

open Archive

theorem Sandbox.home_of_createContainer {c : Container} {m m' : Memory}
    (h : createContainer Memory.engine c m = (.ok (), m')) :
    m'.homes.find? c.name = some .empty := by
  unfold createContainer at h
  split at h
  · exact Memory.home_of_engine_create h
  · exact Memory.home_of_engine_create h

/-- A new sandbox is open and has an empty home. -/
theorem Sandbox.home_of_create {order : Order} {draw : Nat} {w w' : World Memory}
    {sandbox : Sandbox} (h : create Memory.engine order draw w = (.ok sandbox, w')) :
    w'.engine.homes.find? sandbox.name = some .empty := by
  unfold create at h
  split at h
  · cases h
  · split at h
    · rename_i hcreate
      cases h
      exact home_of_createContainer hcreate
    · cases h

/-- Files that could be put into a sandbox are in its home under their clean paths. -/
theorem Running.home_of_putFiles {r r' : Running Memory} {files home : KeyMap Bytes} {mtime : Nat}
    (hfiles : ∀ file ∈ files.entries, IsHeld file)
    (hhome : r.world.engine.homes.find? r.sandbox.name = some home)
    (h : r.putFiles Memory.engine files mtime = (.ok (), r')) :
    r'.world.engine.homes.find? r.sandbox.name = some (home.union (cleaned files)) := by
  unfold putFiles at h
  split at h
  · rename_i hempty
    cases h
    have hnone : cleaned files = .empty := by
      rw [cleaned, List.isEmpty_iff.1 hempty]
      rfl
    rw [hnone, KeyMap.union_empty]
    exact hhome
  · split at h
    · cases h
    · split at h
      · cases h
      · rename_i archive hpacked
        cases hput : Memory.engine.copyIn r.sandbox.name r.sandbox.uid archive r.world.engine with
        | mk result s =>
          simp only [hput] at h
          cases h
          obtain ⟨unpackedFiles, hunpacked, hhome'⟩ := Memory.home_of_engine_copyIn hhome hput
          have hpack : pack files r.sandbox.uid mtime = .ok archive := by
            unfold packed at hpacked
            cases hpack : pack files r.sandbox.uid mtime with
            | error e =>
              rw [hpack] at hpacked
              cases hpacked
            | ok archive' =>
              rw [hpack] at hpacked
              cases hpacked
              rfl
          rw [unpacked, unpack_pack hfiles hpack] at hunpacked
          cases hunpacked
          exact hhome'

/-- Files that can be packed can be put into an open sandbox of an engine in which nothing fails. -/
theorem Running.exists_putFiles {r : Running Memory} {files home : KeyMap Bytes} {mtime : Nat}
    {archive : Bytes} (hfiles : ∀ file ∈ files.entries, IsHeld file)
    (hopen : r.sandbox.closed = false) (hmishaps : r.world.engine.mishaps = {})
    (hfails : r.world.engine.failsCopyIn = false)
    (hhome : r.world.engine.homes.find? r.sandbox.name = some home)
    (hpack : pack files r.sandbox.uid mtime = .ok archive) :
    ∃ r', r.putFiles Memory.engine files mtime = (.ok (), r') := by
  have hpacked : packed files r.sandbox.uid mtime = .ok archive := by
    rw [packed, hpack]
    rfl
  have hunpacked : unpacked archive = .ok (cleaned files) := by
    rw [unpacked, unpack_pack hfiles hpack]
    rfl
  unfold putFiles
  by_cases hempty : files.isEmpty
  · exact ⟨r, if_pos hempty⟩
  · rw [if_neg hempty, if_neg (by simp [hopen])]
    simp only [hpacked, Memory.engine_copyIn hmishaps, Memory.copyIn, hunpacked, hfails, hhome,
      Bool.false_eq_true, if_false]
    exact ⟨_, rfl⟩

namespace Bundle

/-- The submission for a problem type with a makefile, whose name it spells with a slash at its end. -/
def respelledType : ProblemType :=
  { python3 with files := .ofList [("Makefile", [116])] }

def respelledCommit : Commit :=
  { fizzbuzzCommit with files := .ofList [("Makefile/", [115])] }

def respelled : Bundle :=
  { fizzbuzz [{ step := 1, problemType := "python3" }] with
    problemType := some respelledType
    commit := some respelledCommit }

def respelledAdmitted : Admitted :=
  { fizzbuzzAdmitted { step := 1, problemType := "python3" } [] [115] with
    problemType := respelledType
    problemTypeSignature := respelledType.sign [115]
    commit := respelledCommit }

theorem respelled_admits : (respelled.sign [115]).Admits ⟨"python3", "grade"⟩ [115] "localhost"
    (.ofSeconds 30) respelledAdmitted := by
  have haction : respelledType.actions.find? "grade" = some makeGrade := by
    simp [respelledType, python3, KeyMap.find?_ofList]
  have hhost : respelled.hostname ≠ "" := by simp [respelled, fizzbuzz]
  have huser : 1 ≤ respelled.userId := by simp [respelled, fizzbuzz]
  have hrecent : distance (.ofSeconds 30) respelledCommit.updatedAt ≤ maxAge := by decide
  exact admits_sign rfl rfl (List.cons_ne_nil _ _) rfl hhost huser haction hrecent rfl rfl rfl

theorem respelled_entries :
    respelledAdmitted.files.entries = [("Makefile", [116]), ("Makefile/", [115])] := by
  decide +kernel

theorem respelled_isHeld : ∀ file ∈ respelledAdmitted.files.entries, IsHeld file := by
  rw [respelled_entries]
  simp only [List.forall_mem_cons, IsHeld]
  decide

theorem exists_pack_respelled (uid mtime : Nat) :
    ∃ archive, pack respelledAdmitted.files uid mtime = .ok archive := by
  have hparents : parents (Utf8.encode "Makefile") = [] := by decide
  have hparents' : parents (Utf8.encode "Makefile/") = [] := by decide
  have hstored : storedName false (Utf8.encode "Makefile") = .ok (Utf8.encode "Makefile") := by cbv
  have hstored' : storedName false (Utf8.encode "Makefile/") = .ok (Utf8.encode "Makefile/") := by cbv
  simp only [pack, respelled_entries, fileEntries, hparents, hparents', directoryEntries, fileEntry,
    entry, hstored, hstored', bind, Except.bind]
  exact ⟨_, rfl⟩

def makeOrder : Sandbox.Order :=
  ⟨"nanny-42", "python:3", {}, false⟩

/-- The files of the submission can be put into a new sandbox of a new engine. -/
theorem exists_put_respelled :
    ∃ sandbox w r, Sandbox.create Memory.engine makeOrder 0 ⟨{}, {}⟩ = (.ok sandbox, w) ∧
      Running.putFiles Memory.engine respelledAdmitted.files 0 ⟨sandbox, w, []⟩ = (.ok (), r) := by
  have hfree : ({} : Uids).reserved.length < Uids.count := by decide
  obtain ⟨⟨uid, uids⟩, hreserve⟩ := Option.isSome_iff_exists.1 (Uids.reserve?_isSome hfree 0)
  have hcreate : Sandbox.create Memory.engine makeOrder 0 ⟨{}, {}⟩ =
      (.ok { name := "nanny-42", uid, timeout := 0 },
        ⟨{ homes := KeyMap.empty.insert "nanny-42" .empty, created := [makeOrder.container uid] },
          uids⟩) := by
    simp only [Sandbox.create, hreserve]
    rfl
  obtain ⟨archive, hpack⟩ := exists_pack_respelled uid 0
  obtain ⟨r, hput⟩ := Running.exists_putFiles (r := ⟨_, _, []⟩) respelled_isHeld rfl rfl rfl
    (Sandbox.home_of_create hcreate) hpack
  exact ⟨_, _, r, hcreate, hput⟩

theorem isNormal_makefile : IsNormal "Makefile" :=
  ⟨["Makefile"], by decide, by decide, by simp⟩

theorem respelled_last : (spellings respelledAdmitted.files "Makefile").getLast? =
    some ("Makefile/", [115]) := by
  rw [spellings, respelled_entries]
  decide +kernel

theorem respelled_template :
    respelledAdmitted.problemType.files.find? "Makefile" = some [116] := by
  simp [respelledAdmitted, respelledType, KeyMap.find?_ofList]

end Bundle

namespace Admitted

/-- The last spelling of a template's name is the name itself or comes after it. -/
theorem exists_last_spelling (a : Admitted) {path : String} {data : Bytes}
    (htemplate : a.problemType.files.find? path = some data) (hnormal : IsNormal path) :
    ∃ name other, (spellings a.files path).getLast? = some (name, other) ∧
      (¬path < name → other = data) := by
  have hfile : a.files.find? path = some data := by
    rw [files, KeyMap.find?_union, htemplate, Option.some_or]
  have hmem : (path, data) ∈ spellings a.files path :=
    List.mem_filter.2 ⟨KeyMap.mem_entries.2 hfile, decide_eq_true (clean_of_isNormal hnormal)⟩
  have hsorted : (spellings a.files path).Pairwise (·.1 < ·.1) := a.files.sorted.filter _
  rcases List.eq_nil_or_concat (spellings a.files path) with hnil | ⟨front, ⟨name, other⟩, hlast⟩
  · rw [hnil] at hmem
    cases hmem
  · rw [List.concat_eq_append] at hlast
    rw [hlast] at hmem hsorted ⊢
    refine ⟨name, other, List.getLast?_concat, ?_⟩
    intro hlt
    rcases List.mem_append.1 hmem with hfront | hsame
    · exact absurd ((List.pairwise_append.1 hsorted).2.2 _ hfront _ (.head _)) hlt
    · cases List.mem_singleton.1 hsame
      rfl

/-- A template is in the home of a new sandbox exactly when no spelling of its name that comes after it has
the last word with other content. -/
theorem template_stands_iff (a : Admitted) (hfiles : ∀ file ∈ a.files.entries, IsHeld file)
    {order : Sandbox.Order} {draw mtime : Nat} {w w' : World Memory} {sandbox : Sandbox}
    {r : Running Memory} (hcreate : Sandbox.create Memory.engine order draw w = (.ok sandbox, w'))
    (hput : Running.putFiles Memory.engine a.files mtime ⟨sandbox, w', []⟩ = (.ok (), r))
    {path : String} {data : Bytes} (htemplate : a.problemType.files.find? path = some data)
    (hnormal : IsNormal path) :
    ∃ home, r.world.engine.homes.find? sandbox.name = some home ∧
      (home.find? path = some data ↔
        ∀ name other, (spellings a.files path).getLast? = some (name, other) → path < name →
          other = data) := by
  have hhome := Running.home_of_putFiles hfiles (Sandbox.home_of_create hcreate) hput
  obtain ⟨name, other, hlast, hsame⟩ := exists_last_spelling a htemplate hnormal
  refine ⟨_, hhome, ?_⟩
  have hfound : (KeyMap.empty.union (cleaned a.files)).find? path = some other := by
    rw [KeyMap.empty_union, find?_cleaned, hlast]
    rfl
  rw [hfound, hlast]
  constructor
  · intro h name' other' heq _
    cases heq
    exact Option.some.inj h
  · intro h
    by_cases hlt : path < name
    · rw [h name other rfl hlt]
    · rw [hsame hlt]

end Admitted

namespace Bundle

/-- Whether the makefile stands hangs on the file whose name is spelled with a slash. -/
theorem respelled_makefile_stands_iff :
    ∃ sandbox w r home, Sandbox.create Memory.engine makeOrder 0 ⟨{}, {}⟩ = (.ok sandbox, w) ∧
      Running.putFiles Memory.engine respelledAdmitted.files 0 ⟨sandbox, w, []⟩ = (.ok (), r) ∧
      r.world.engine.homes.find? sandbox.name = some home ∧
      (home.find? "Makefile" = some [116] ↔
        ∀ name other, (spellings respelledAdmitted.files "Makefile").getLast? = some (name, other) →
          "Makefile" < name → other = [116]) := by
  obtain ⟨sandbox, w, r, hcreate, hput⟩ := exists_put_respelled
  obtain ⟨home, hhome, hiff⟩ := Admitted.template_stands_iff respelledAdmitted respelled_isHeld
    hcreate hput respelled_template isNormal_makefile
  exact ⟨sandbox, w, r, home, hcreate, hput, hhome, hiff⟩

/-- A student's file replaces a template when its name is the template's with a slash at its end. -/
theorem respelled_makefile_replaced :
    ∃ a sandbox w r home,
      (respelled.sign [115]).admission ⟨"python3", "grade"⟩ [115] "localhost" (.ofSeconds 30) =
        .ok a ∧
      a.problemType.files.find? "Makefile" = some [116] ∧ IsNormal "Makefile" ∧
      Sandbox.create Memory.engine makeOrder 0 ⟨{}, {}⟩ = (.ok sandbox, w) ∧
      Running.putFiles Memory.engine a.files 0 ⟨sandbox, w, []⟩ = (.ok (), r) ∧
      r.world.engine.homes.find? sandbox.name = some home ∧
      home.find? "Makefile" = some [115] := by
  obtain ⟨sandbox, w, r, hcreate, hput⟩ := exists_put_respelled
  have hhome := Running.home_of_putFiles respelled_isHeld (Sandbox.home_of_create hcreate) hput
  refine ⟨respelledAdmitted, sandbox, w, r, _, admission_of_admits respelled_admits, respelled_template,
    isNormal_makefile, hcreate, hput, hhome, ?_⟩
  rw [KeyMap.empty_union, find?_cleaned, respelled_last]
  rfl

end Bundle

end Proctor
