import Proctor.Proofs.ArchiveContents
import Proctor.Proofs.PlainPath

/-!
Paths that leave the directory they are unpacked in: absolute ones, and those that climb. A header is given
no such path, but the member before a header that keeps a long path as it is can hold one that climbs.

Main statement: `packed_paths_climb_iff`.
-/

namespace Proctor.Archive

/-- The path starts at the root. -/
def IsAbsolute (path : Bytes) : Prop :=
  path.head? = some 47

/-- Two dots stand for a component of the path. -/
def Climbs (path : Bytes) : Prop :=
  [46, 46] ∈ path.splitOn 47

instance (path : Bytes) : Decidable (IsAbsolute path) :=
  inferInstanceAs (Decidable (path.head? = some 47))

instance (path : Bytes) : Decidable (Climbs path) :=
  inferInstanceAs (Decidable ([46, 46] ∈ path.splitOn 47))

/-! ### Components -/

theorem component?_eq_parent {isFirst : Bool} {piece : Bytes} :
    component? isFirst piece = some .parent ↔ piece = [46, 46] := by
  constructor
  · intro h
    unfold component? at h
    split at h
    · cases h
    · split at h
      · split at h <;> cases h
      · split at h
        · assumption
        · cases h
  · rintro rfl
    rfl

theorem component?_ne_root {isFirst : Bool} {piece : Bytes} : component? isFirst piece ≠ some .root := by
  unfold component?
  split
  · simp
  · split
    · split <;> simp
    · split <;> simp

/-- The pieces of a path are what stands between its slashes. -/
theorem map_fst_pieces_eq_splitOn (before piece path : Bytes) :
    (pieces before piece path).map (·.1) = (path.splitOn 47).modifyHead (piece.reverse ++ ·) := by
  induction path generalizing before piece with
  | nil => simp [pieces, List.splitOn]
  | cons b path ih =>
    rw [pieces, List.splitOn, List.splitOnP_cons_eq_if_modifyHead]
    split
    · rename_i hslash
      have hid : (fun piece : Bytes => piece) = id := rfl
      simp [hslash, ih, List.splitOn, hid]
    · rename_i hslash
      simp [hslash, ih, List.splitOn, List.modifyHead_modifyHead, Function.comp_def]

theorem root_mem_parts_iff {path : Bytes} : .root ∈ parts path ↔ IsAbsolute path := by
  rw [parts_eq, List.mem_append, IsAbsolute]
  constructor
  · rintro (hroot | hpiece)
    · by_contra habsolute
      rw [if_neg habsolute] at hroot
      cases hroot
    · obtain ⟨_, _, hcomponent⟩ := List.mem_filterMap.1 hpiece
      exact absurd hcomponent component?_ne_root
  · intro habsolute
    exact .inl (by simp [habsolute])

theorem parent_mem_parts_iff {path : Bytes} : .parent ∈ parts path ↔ Climbs path := by
  have hid : (fun piece : Bytes => piece) = id := rfl
  have hpieces : (pieces [] [] path).map (·.1) = path.splitOn 47 := by
    simp [map_fst_pieces_eq_splitOn, hid]
  rw [parts_eq, List.mem_append, hpieces, Climbs]
  constructor
  · rintro (hroot | hpiece)
    · split at hroot <;> simp at hroot
    · obtain ⟨_, hmem, hcomponent⟩ := List.mem_filterMap.1 hpiece
      rw [← component?_eq_parent.1 hcomponent]
      exact List.fst_mem_of_mem_zipIdx hmem
  · intro hclimbs
    obtain ⟨i, hi, hpiece⟩ := List.getElem_of_mem hclimbs
    refine .inr (List.mem_filterMap.2 ⟨([46, 46], i), ?_, component?_eq_parent.2 rfl⟩)
    rw [← hpiece]
    exact List.mk_mem_zipIdx_iff_getElem?.2 (List.getElem?_eq_getElem hi)

/-- What stands before a slash climbs only in a path that climbs. -/
theorem Climbs.append {path : Bytes} (h : Climbs path) (rest : Bytes) : Climbs (path ++ 47 :: rest) := by
  rw [Climbs, List.splitOn, List.splitOnP_append_cons path rest rfl]
  exact List.mem_append_left _ h

theorem climbs_of_mem_parents {path dir : Bytes} (hdir : dir ∈ parents path) (h : Climbs dir) :
    Climbs path := by
  obtain ⟨_, rfl | rfl | ⟨rest, rfl⟩⟩ := of_mem_parents hdir
  · exact absurd h (by decide)
  · exact h
  · exact h.append rest

/-! ### Entries -/

/-- What is stored is relative, and climbs only where it may be cut off. -/
theorem not_mem_of_storeComponents {alone cut : Bool} {stored name : Bytes} {cs : List Component}
    (h : storeComponents alone cut stored cs = .ok name) :
    .root ∉ cs ∧ (cut = false → .parent ∉ cs) := by
  induction cs generalizing stored with
  | nil => simp
  | cons c rest ih =>
    have next (h : storeComponents.storeNext alone cut stored c rest = .ok name) :
        .root ∉ rest ∧ (cut = false → .parent ∉ rest) :=
      ih (storeNext_eq_ok h).1
    unfold storeComponents at h
    cases c with
    | root => cases h
    | parent =>
      simp only at h
      split at h
      · rename_i hcut
        obtain ⟨hroot, _⟩ := next h
        exact ⟨by simpa using hroot, fun hwhole => absurd (hcut.1.symm.trans hwhole) (by decide)⟩
      · cases h
    | current =>
      simp only at h
      split at h
      · simpa using next h
      · simpa using ih h
    | normal n => simpa using next h

theorem not_absolute_of_storedName {cut : Bool} {path name : Bytes}
    (h : storedName cut path = .ok name) : ¬IsAbsolute path := by
  obtain ⟨_, hstored, _, _⟩ := storedName_eq_ok h
  exact fun habsolute => (not_mem_of_storeComponents hstored).1 (root_mem_parts_iff.2 habsolute)

theorem not_climbs_of_storedName {path name : Bytes} (h : storedName false path = .ok name) :
    ¬Climbs path := by
  obtain ⟨_, hstored, _, _⟩ := storedName_eq_ok h
  exact fun hclimbs => (not_mem_of_storeComponents hstored).2 rfl (parent_mem_parts_iff.2 hclimbs)

theorem mem_parts_storedPath {path : Bytes} {c : Component} (hcurrent : c ≠ .current) :
    c ∈ parts (storedPath path) ↔ c ∈ parts path := by
  have hkept (cs : List Component) : c ∈ cs.filter (· ≠ .current) ↔ c ∈ cs := by
    simp [hcurrent]
  unfold storedPath
  split
  · rename_i name hname
    rw [← hkept, filter_parts_storedName hname, hkept]
  · rfl

theorem isAbsolute_storedPath {path : Bytes} : IsAbsolute (storedPath path) ↔ IsAbsolute path := by
  rw [← root_mem_parts_iff, ← root_mem_parts_iff, mem_parts_storedPath (by decide)]

theorem climbs_storedPath {path : Bytes} : Climbs (storedPath path) ↔ Climbs path := by
  rw [← parent_mem_parts_iff, ← parent_mem_parts_iff, mem_parts_storedPath (by decide)]

/-- What starts a text is relative when what a cut leaves of it is. -/
theorem isAbsolute_textStart {text : String} {front : Bytes} (h : front <+: Utf8.encode text)
    (hlong : 3 < front.length) : IsAbsolute (textStart front) ↔ IsAbsolute front := by
  obtain ⟨⟨rest, hrest⟩, hshort⟩ := textStart_of_prefix h
  have hne : textStart front ≠ [] := by
    intro hnil
    rw [hnil, List.length_nil] at hshort
    omega
  rw [IsAbsolute, IsAbsolute, ← List.head?_append_of_ne_nil _ hne, hrest]

/-- The path is relative, and it climbs only if it has as many bytes as a header has for a path. -/
structure Stays (path : Bytes) : Prop where
  relative : ¬IsAbsolute path
  long_of_climbs : Climbs path → nameSize ≤ path.length

theorem stays_of_entry {path bs data : Bytes} {header : Header} (h : entry path header data = .ok bs)
    {text : String} (htext : path <+: Utf8.encode text) : Stays (storedPath path) := by
  rw [entry] at h
  cases hstored : storedName false path with
  | ok name =>
    have hrelative := not_absolute_of_storedName hstored
    have hlevel := not_climbs_of_storedName hstored
    rw [← isAbsolute_storedPath] at hrelative
    rw [← climbs_storedPath] at hlevel
    exact ⟨hrelative, fun hclimbs => absurd hclimbs hlevel⟩
  | error e =>
    have hraw : storedPath path = path := by rw [storedPath, hstored]
    simp only [hstored] at h
    split at h
    · cases h
    · rename_i hlong
      obtain ⟨name, hcut, _⟩ := bind_eq_ok.1 h
      have hlength : 3 < (path.take nameSize).length := by
        rw [List.length_take_of_le (Nat.le_of_not_lt hlong)]
        decide
      have hsame : IsAbsolute (path.take nameSize) ↔ IsAbsolute path := by
        rw [IsAbsolute, IsAbsolute, List.head?_take, if_neg (by decide)]
      have hrelative := not_absolute_of_storedName hcut
      rw [isAbsolute_textStart ((List.take_prefix nameSize path).trans htext) hlength, hsame]
        at hrelative
      rw [hraw]
      exact ⟨hrelative, fun _ => Nat.le_of_not_lt hlong⟩

/-- What some files lead to stays, and climbs only with the name of one of them. -/
theorem stays_of_enters {uid mtime : Nat} {files : List (String × Bytes)} {i : Item} {bs : Bytes}
    (h : Enters uid mtime files i bs) :
    Stays i.path ∧ (Climbs i.path → ∃ file ∈ files, Climbs (Utf8.encode file.1)) := by
  cases h with
  | @directory file path bs hfile hpath hentry =>
    refine ⟨stays_of_entry hentry (of_mem_parents hpath).1, fun hclimbs => ⟨file, hfile, ?_⟩⟩
    exact climbs_of_mem_parents hpath (climbs_storedPath.1 hclimbs)
  | @file file bs hfile hentry =>
    exact ⟨stays_of_entry hentry (List.prefix_refl _),
      fun hclimbs => ⟨file, hfile, climbs_storedPath.1 hclimbs⟩⟩

theorem exists_member_of_file {ms : List Member} {known : List (List Component)}
    {files : List (String × Bytes)} (hitems : ms.map Member.item = contents known files)
    {file : String × Bytes} (hfile : file ∈ files) :
    ∃ m ∈ ms, m.path = storedPath (Utf8.encode file.1) := by
  have hpacked : fileItem file ∈ (contents known files).filter Item.isFile := by
    rw [filter_contents]
    exact List.mem_map_of_mem hfile
  have hitem : fileItem file ∈ ms.map Member.item := hitems ▸ List.mem_of_mem_filter hpacked
  obtain ⟨m, hm, hsame⟩ := List.mem_map.1 hitem
  exact ⟨m, hm, congrArg Item.path hsame⟩

/-- Whatever is packed, no path in the archive is absolute, and one that climbs fills the name in a header
at least. None climbs exactly when no name of a file does. -/
theorem packed_paths_climb_iff (files : KeyMap Bytes) (hheld : ∀ file ∈ files.entries, IsHeld file)
    (uid mtime : Nat) (archive : Bytes) (hpack : pack files uid mtime = .ok archive) :
    ∃ ms, members archive = .ok ms ∧ (∀ m ∈ ms, ¬IsAbsolute m.path) ∧
      (∀ m ∈ ms, Climbs m.path → nameSize ≤ m.path.length) ∧
      ((∀ m ∈ ms, ¬Climbs m.path) ↔ ∀ name ∈ files.keys, ¬Climbs (Utf8.encode name)) := by
  obtain ⟨ms, hread, hitems⟩ := members_pack hheld hpack
  obtain ⟨bs, hbs, _⟩ := bind_eq_ok.1 hpack
  obtain ⟨entries, _, hentries⟩ := fileEntries_eq_ok hbs
  have hstays := ((List.forall₂_and_left _ _).1
    (hentries.imp fun i bs henters => ⟨stays_of_enters henters, henters⟩)).1
  have hmember : ∀ m ∈ ms, Stays m.path ∧
      (Climbs m.path → ∃ file ∈ files.entries, Climbs (Utf8.encode file.1)) :=
    fun m hm => hstays m.item (hitems ▸ List.mem_map_of_mem hm)
  refine ⟨ms, hread, fun m hm => (hmember m hm).1.relative,
    fun m hm => (hmember m hm).1.long_of_climbs, ?_, ?_⟩
  · intro hlevel name hname hclimbs
    obtain ⟨file, hfile, rfl⟩ := List.mem_map.1 hname
    obtain ⟨m, hm, hpath⟩ := exists_member_of_file hitems hfile
    exact hlevel m hm (hpath ▸ climbs_storedPath.2 hclimbs)
  · intro hlevel m hm hclimbs
    obtain ⟨file, hfile, hname⟩ := (hmember m hm).2 hclimbs
    exact hlevel file.1 (List.mem_map_of_mem hfile) hname

/-- A name that fills a header. -/
def fullName : String :=
  String.ofList (List.replicate 100 'd')

/-- A file beside a directory whose name fills a header. -/
def besideFull : KeyMap Bytes :=
  .ofList [(fullName ++ "/../x", [120])]

theorem besideFull_entries : besideFull.entries = [(fullName ++ "/../x", [120])] :=
  KeyMap.entries_ofList_singleton _ _

theorem encode_fullName : Utf8.encode fullName = List.replicate 100 100 := by
  have hchar : Utf8.encodeChar 'd' = [100] := by decide
  have htext : Utf8.encode fullName = (List.replicate 100 'd').flatMap Utf8.encodeChar :=
    Utf8.encode_ofList _
  rw [htext, List.flatMap_replicate, hchar, List.flatten_replicate_singleton]

theorem encode_besideFull : Utf8.encode (fullName ++ "/../x") =
    List.replicate 100 100 ++ 47 :: [46, 46] ++ 47 :: [120] := by
  have hback : Utf8.encode "/../x" = 47 :: [46, 46] ++ 47 :: [120] := by decide
  rw [Utf8.encode_append, encode_fullName, hback, List.append_assoc]

theorem besideFull_held : ∀ file ∈ besideFull.entries, IsHeld file := by
  rw [besideFull_entries]
  intro file hfile
  cases List.mem_singleton.1 hfile
  rw [IsHeld, encode_besideFull]
  simp

theorem isName_fullName : IsName (List.replicate 100 100) where
  not_empty h := by simpa using congrArg List.length h
  not_slashed h := by simpa using List.eq_of_mem_replicate h
  not_current h := by simpa using congrArg List.length h
  not_parent h := by simpa using congrArg List.length h

/-- The name fills the header, so it is what a cut leaves of a path that starts with it. -/
theorem exists_entry_fullName (rest : Bytes) (header : Header) (data : Bytes) :
    ∃ bs, entry (List.replicate 100 100 ++ rest) header data = .ok bs := by
  have hlength : (List.replicate 100 (100 : UInt8)).length = nameSize := List.length_replicate
  have hzero : 0 ∉ List.replicate 100 (100 : UInt8) := fun h => by
    simpa using List.eq_of_mem_replicate h
  have hstart : textStart ((List.replicate 100 100 ++ rest).take nameSize) = List.replicate 100 100 := by
    rw [List.take_left' hlength, ← encode_fullName, textStart_encode]
  have hstored : storedName true (List.replicate 100 100) = .ok (List.replicate 100 100) :=
    (IsPlain.name isName_fullName).storedName_eq (Nat.le_of_eq hlength) hzero true
  apply exists_entry_of_cut
  · rw [List.length_append, hlength]
    exact Nat.le_add_right _ _
  · rw [hstart]
    exact hstored

theorem exists_pack_besideFull : ∃ archive, pack besideFull 10042 0 = .ok archive := by
  have hparents : parents (List.replicate 100 100 ++ 47 :: [46, 46] ++ 47 :: [120]) =
      [List.replicate 100 100 ++ [], List.replicate 100 100 ++ 47 :: [46, 46]] := by
    rw [parents, components_concat (by simp) (by decide), components_concat (by simp) (by decide),
      components_name isName_fullName]
    rfl
  apply exists_pack
  rw [besideFull_entries]
  intro file hfile
  cases List.mem_singleton.1 hfile
  rw [encode_besideFull, hparents, List.append_assoc]
  refine ⟨fun dir hdir => ?_, exists_entry_fullName _ _ _⟩
  rcases List.mem_pair.1 hdir with rfl | rfl
  · exact exists_entry_fullName _ _ _
  · exact exists_entry_fullName _ _ _

/-- A long path that climbs can be packed. -/
theorem besideFull_climbs : ∃ archive ms, pack besideFull 10042 0 = .ok archive ∧
    members archive = .ok ms ∧ ∃ m ∈ ms, Climbs m.path := by
  obtain ⟨archive, hpack⟩ := exists_pack_besideFull
  obtain ⟨ms, hread, hitems⟩ := members_pack besideFull_held hpack
  have hfile : (fullName ++ "/../x", [120]) ∈ besideFull.entries := by
    rw [besideFull_entries]
    exact .head _
  have hclimbs : Climbs (Utf8.encode (fullName ++ "/../x")) := by
    rw [encode_besideFull, ← parent_mem_parts_iff, parts_concat (by simp) (by decide),
      parts_concat (by simp) (by decide)]
    simp [component?]
  obtain ⟨m, hm, hpath⟩ := exists_member_of_file hitems hfile
  exact ⟨archive, ms, hpack, hread, m, hm, hpath ▸ climbs_storedPath.2 hclimbs⟩

theorem besideFull_stays_relative : ∃ archive ms, pack besideFull 10042 0 = .ok archive ∧
    members archive = .ok ms ∧ (∀ m ∈ ms, ¬IsAbsolute m.path) ∧
    ∀ m ∈ ms, Climbs m.path → nameSize ≤ m.path.length := by
  obtain ⟨archive, hpack⟩ := exists_pack_besideFull
  obtain ⟨ms, hread, hrelative, hlong, _⟩ :=
    packed_paths_climb_iff besideFull besideFull_held 10042 0 archive hpack
  exact ⟨archive, ms, hpack, hread, hrelative, hlong⟩

end Proctor.Archive
