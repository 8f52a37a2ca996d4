import Proctor.Proofs.ArchiveContents
import Proctor.Proofs.PlainPath

/-!
Files with names in normal form, packed and read back. Such files can always be packed and come back under
their own names, and each directory above one of them has an entry of its own, once and before the first
file in it.

Main statement: `packed_files_are_read_back`.
-/

namespace Proctor.Archive

/-! ### Directories that are new -/

section

variable {known : List (List Component)} {paths : List Bytes}

/-- What has an entry then had one before or is new. -/
theorem mem_known_newDirectories {key : List Component} :
    key ∈ (newDirectories known paths).2 ↔
      key ∈ known ∨ ∃ path ∈ (newDirectories known paths).1, directoryKey path = key := by
  induction paths generalizing known with
  | nil => simp [newDirectories]
  | cons first paths ih =>
    rw [newDirectories]
    split
    · exact ih
    · rw [ih]
      simp only [List.mem_cons, exists_eq_or_imp]
      rw [eq_comm (a := key)]
      tauto

theorem known_of_mem {path : Bytes} (h : path ∈ paths) :
    directoryKey path ∈ (newDirectories known paths).2 := by
  induction paths generalizing known with
  | nil => cases h
  | cons first paths ih =>
    rw [newDirectories]
    split
    · rename_i hfirst
      rcases List.mem_cons.1 h with rfl | h
      · exact mem_known_newDirectories.2 (.inl (List.contains_iff_mem.1 hfirst))
      · exact ih h
    · rcases List.mem_cons.1 h with rfl | h
      · exact mem_known_newDirectories.2 (.inl (.head _))
      · exact ih h

theorem nodup_newDirectories :
    ((newDirectories known paths).1.map directoryKey).Nodup := by
  induction paths generalizing known with
  | nil => exact List.nodup_nil
  | cons first paths ih =>
    rw [newDirectories]
    split
    · exact ih
    · refine List.nodup_cons.2 ⟨?_, ih⟩
      intro hmem
      obtain ⟨path, hpath, hkey⟩ := List.mem_map.1 hmem
      exact (of_mem_newDirectories hpath).2 (hkey ▸ .head _)

end

/-- A directory above a plain path that has no entry gets one. -/
theorem exists_split_newDirectories {path dir : Bytes} (hpath : IsPlain path)
    (hdir : dir ∈ parents path) {known : List (List Component)} (hnew : directoryKey dir ∉ known) :
    ∃ front back, (newDirectories known (parents path)).1 = front ++ dir :: back ∧
      ∀ other ∈ front ++ back, other ≠ dir := by
  obtain ⟨other, hother, hkey⟩ :=
    (mem_known_newDirectories.1 (known_of_mem hdir)).resolve_left hnew
  have hotherPlain := hpath.of_mem_parents other (of_mem_newDirectories hother).1
  cases hotherPlain.eq_of_parts (hpath.of_mem_parents dir hdir) hkey
  obtain ⟨front, back, hsplit⟩ := List.append_of_mem hother
  refine ⟨front, back, hsplit, ?_⟩
  rintro other hmem rfl
  have hnodup : ((newDirectories known (parents path)).1.map directoryKey).Nodup :=
    nodup_newDirectories
  rw [hsplit, (List.perm_middle.map directoryKey).nodup_iff] at hnodup
  exact (List.nodup_cons.1 hnodup).1 (List.mem_map_of_mem hmem)

/-! ### Where the directories are -/

theorem contents_cons (known : List (List Component)) (file : String × Bytes)
    (files : List (String × Bytes)) :
    contents known (file :: files) =
      (newDirectories known (parents (Utf8.encode file.1))).1.map directoryItem ++
        fileItem file :: contents (newDirectories known (parents (Utf8.encode file.1))).2 files :=
  rfl

/-- No item is the entry of a directory. -/
def Lacks (dir : Bytes) (items : List Item) : Prop :=
  ∀ i ∈ items, i.kind = Kind.directory → i.path ≠ dir

theorem lacks_append {dir : Bytes} {items others : List Item} :
    Lacks dir (items ++ others) ↔ Lacks dir items ∧ Lacks dir others := by
  simp only [Lacks, List.mem_append, or_imp, forall_and]

theorem lacks_cons_file {dir : Bytes} {file : String × Bytes} {items : List Item} :
    Lacks dir (fileItem file :: items) ↔ Lacks dir items := by
  have hfile : (fileItem file).kind ≠ Kind.directory := (by decide : Kind.file ≠ Kind.directory)
  simp [Lacks, hfile]

theorem lacks_directories {dir : Bytes} {dirs : List Bytes} (hplain : ∀ other ∈ dirs, IsPlain other) :
    Lacks dir (dirs.map directoryItem) ↔ ∀ other ∈ dirs, other ≠ dir := by
  have hkind (other : Bytes) : (directoryItem other).kind = Kind.directory := rfl
  have hpath : ∀ other ∈ dirs, (directoryItem other).path = other :=
    fun other hmem => (hplain other hmem).storedPath_eq
  simp +contextual [Lacks, hkind, hpath]

/-- A directory has one entry among some items, and no file before it is in it. -/
def IsListed (dir : Bytes) (items : List Item) : Prop :=
  ∃ before after, items = before ++ directoryItem dir :: after ∧ Lacks dir (before ++ after) ∧
    ∀ i ∈ before, i.kind ≠ Kind.directory → ∀ rest, i.path ≠ dir ++ 47 :: rest

variable {known : List (List Component)} {files : List (String × Bytes)} {dir : Bytes}

theorem IsListed.append {items front : List Item} (h : IsListed dir items) (hentry : Lacks dir front)
    (hfront : ∀ i ∈ front, i.kind ≠ Kind.directory → ∀ rest, i.path ≠ dir ++ 47 :: rest) :
    IsListed dir (front ++ items) := by
  obtain ⟨before, after, rfl, hentries, hbefore⟩ := h
  refine ⟨front ++ before, after, by simp, ?_, ?_⟩
  · rw [List.append_assoc]
    exact lacks_append.2 ⟨hentry, hentries⟩
  · intro i hi
    rcases List.mem_append.1 hi with hi | hi
    · exact hfront i hi
    · exact hbefore i hi

theorem plain_newDirectories {path : Bytes} (hpath : IsPlain path) :
    ∀ other ∈ (newDirectories known (parents path)).1, IsPlain other :=
  fun other hother => hpath.of_mem_parents other (of_mem_newDirectories hother).1

/-- A directory that has an entry already gets no other. -/
theorem lacks_of_known (hplain : ∀ file ∈ files, IsPlain (Utf8.encode file.1))
    (hknown : directoryKey dir ∈ known) : Lacks dir (contents known files) := by
  induction files generalizing known with
  | nil => simp [Lacks, contents]
  | cons file files ih =>
    have hstill : directoryKey dir ∈ (newDirectories known (parents (Utf8.encode file.1))).2 :=
      mem_known_newDirectories.2 (.inl hknown)
    have hrest := ih (fun file hmem => hplain file (.tail _ hmem)) hstill
    rw [contents_cons, lacks_append, lacks_cons_file,
      lacks_directories (plain_newDirectories (hplain file (.head _)))]
    refine ⟨?_, hrest⟩
    rintro other hother rfl
    exact (of_mem_newDirectories hother).2 hknown

/-- A directory above a file is listed. -/
theorem isListed_contents (hplain : ∀ file ∈ files, IsPlain (Utf8.encode file.1))
    {file : String × Bytes} (hfile : file ∈ files) (hdir : dir ∈ parents (Utf8.encode file.1))
    (hnew : directoryKey dir ∉ known) : IsListed dir (contents known files) := by
  induction files generalizing known with
  | nil => cases hfile
  | cons first files ih =>
    have hfirst := hplain first (.head _)
    have hothers : ∀ file ∈ files, IsPlain (Utf8.encode file.1) :=
      fun file hmem => hplain file (.tail _ hmem)
    have hplainNew : ∀ other ∈ (newDirectories known (parents (Utf8.encode first.1))).1, IsPlain other :=
      plain_newDirectories hfirst
    rw [contents_cons]
    by_cases habove : dir ∈ parents (Utf8.encode first.1)
    · -- the first file is in the directory, so the entry is among those right before that file
      obtain ⟨front, back, hsplit, hne⟩ := exists_split_newDirectories hfirst habove hnew
      rw [hsplit] at hplainNew ⊢
      have hfrontPlain : ∀ other ∈ front, IsPlain other :=
        fun other hmem => hplainNew other (List.mem_append_left _ hmem)
      have hbackPlain : ∀ other ∈ back, IsPlain other :=
        fun other hmem => hplainNew other (List.mem_append_right _ (.tail _ hmem))
      refine ⟨front.map directoryItem, back.map directoryItem ++ fileItem first ::
        contents (newDirectories known (parents (Utf8.encode first.1))).2 files, by simp, ?_, ?_⟩
      · rw [lacks_append, lacks_append, lacks_cons_file, lacks_directories hfrontPlain,
          lacks_directories hbackPlain]
        exact ⟨fun other hmem => hne other (List.mem_append_left _ hmem),
          fun other hmem => hne other (List.mem_append_right _ hmem),
          lacks_of_known hothers (known_of_mem habove)⟩
      · intro i hi hkind
        obtain ⟨other, _, rfl⟩ := List.mem_map.1 hi
        exact absurd rfl hkind
    · -- the first file is elsewhere, and so are the directories above it
      have hrest : file ∈ files := by
        rcases List.mem_cons.1 hfile with rfl | hmem
        · exact absurd hdir habove
        · exact hmem
      have hne : ∀ other ∈ (newDirectories known (parents (Utf8.encode first.1))).1, other ≠ dir := by
        rintro other hother rfl
        exact habove (of_mem_newDirectories hother).1
      have hstill : directoryKey dir ∉ (newDirectories known (parents (Utf8.encode first.1))).2 := by
        rw [mem_known_newDirectories]
        rintro (hold | ⟨other, hother, hkey⟩)
        · exact hnew hold
        · have hdirPlain := (hplain file hfile).of_mem_parents dir hdir
          exact hne other hother ((hplainNew other hother).eq_of_parts hdirPlain hkey)
      rw [← List.singleton_append, ← List.append_assoc]
      apply (ih hothers hrest hstill).append
      · rw [lacks_append, lacks_cons_file, lacks_directories hplainNew]
        exact ⟨hne, by simp [Lacks]⟩
      · intro i hi hkind
        rcases List.mem_append.1 hi with hi | hi
        · obtain ⟨other, _, rfl⟩ := List.mem_map.1 hi
          exact absurd rfl hkind
        · rw [List.mem_singleton.1 hi, fileItem, hfirst.storedPath_eq]
          exact fun rest hrest => habove (hfirst.mem_parents_iff.2 ⟨rest, hrest⟩)

/-! ### Packing and unpacking -/

/-- Files with names in normal form are under their clean paths already. -/
theorem cleaned_of_isNormal {files : KeyMap Bytes} (h : ∀ name ∈ files.keys, IsNormal name) :
    cleaned files = files := by
  have hself : files.entries.filterMap (fun file =>
      (cleanPath? (Utf8.encode file.1)).map (·, file.2)) = files.entries.filterMap some := by
    apply List.filterMap_congr
    intro file hmem
    rw [clean_of_isNormal (h file.1 (List.mem_map_of_mem hmem))]
    rfl
  rw [cleaned, hself, List.filterMap_some, KeyMap.ofList_entries]

/-- Files with names in normal form can be packed, and unpacking gives them back. -/
theorem exists_pack_unpack {files : KeyMap Bytes}
    (hnames : ∀ name ∈ files.keys, IsNormal name ∧ '\x00' ∉ name.toList)
    (hheld : ∀ file ∈ files.entries, IsHeld file) (uid mtime : Nat) :
    ∃ archive, pack files uid mtime = .ok archive ∧ unpack archive = .ok files := by
  have hpack : ∃ archive, pack files uid mtime = .ok archive := by
    apply exists_pack
    intro file hmem
    obtain ⟨hnormal, hzero⟩ := hnames file.1 (List.mem_map_of_mem hmem)
    have hplain := IsPlain.of_isNormal hnormal
    have hentry : ∀ path, IsPlain path → path <+: Utf8.encode file.1 → ∀ header data,
        ∃ bs, entry path header data = .ok bs := by
      intro path hpath hstart
      exact hpath.exists_entry
        (fun hmem => not_mem_encode (by decide) hzero (hstart.subset hmem)) hstart
    refine ⟨?_, hentry _ hplain (List.prefix_refl _) _ _⟩
    intro dir hdir
    obtain ⟨rest, hrest⟩ := hplain.mem_parents_iff.1 hdir
    exact hentry dir (hplain.of_mem_parents dir hdir) (hrest ▸ List.prefix_append _ _) _ _
  obtain ⟨archive, hpack⟩ := hpack
  refine ⟨archive, hpack, ?_⟩
  rw [unpack_pack hheld hpack, cleaned_of_isNormal fun name hname => (hnames name hname).1]

namespace Member

def IsDirectory (m : Member) (dir : String) : Prop :=
  m.header.kind = Kind.directory ∧ m.path = Utf8.encode dir

def IsInside (m : Member) (dir : String) : Prop :=
  ∃ rest, m.path = Utf8.encode (dir ++ "/") ++ rest

end Member

theorem encode_inside (dir : String) (rest : Bytes) :
    Utf8.encode (dir ++ "/") ++ rest = Utf8.encode dir ++ 47 :: rest := by
  have hslash : Utf8.encode "/" = [47] := by decide
  rw [Utf8.encode_append, hslash, List.append_assoc]
  rfl

/-- The entry of a listed directory among the members that some items were read as. -/
theorem IsListed.exists_member {ms : List Member} {dir : String} (hplain : IsPlain (Utf8.encode dir))
    (h : IsListed (Utf8.encode dir) (ms.map Member.item)) :
    ∃ before m after, ms = before ++ m :: after ∧ m.IsDirectory dir ∧
      (∀ m' ∈ before ++ after, ¬m'.IsDirectory dir) ∧
      ∀ m' ∈ before, m'.isFile → ¬m'.IsInside dir := by
  obtain ⟨items, others, hitems, hentries, hbefore⟩ := h
  obtain ⟨before, rest, rfl, rfl, hrest⟩ := List.map_eq_append_iff.1 hitems
  obtain ⟨m, after, rfl, hm, rfl⟩ := List.map_eq_cons_iff.1 hrest
  rw [← List.map_append] at hentries
  refine ⟨before, m, after, rfl, ⟨congrArg Item.kind hm, ?_⟩, ?_, ?_⟩
  · rw [← hplain.storedPath_eq]
    exact congrArg Item.path hm
  · intro m' hm' hdirectory
    exact hentries m'.item (List.mem_map_of_mem hm') hdirectory.1 hdirectory.2
  · rintro m' hm' hfile ⟨inner, hinner⟩
    have hkind : m'.item.kind ≠ Kind.directory := by
      intro hkind
      have hdirectory : m'.header.kind = Kind.directory := hkind
      rw [Member.isFile, hdirectory] at hfile
      cases hfile
    rw [encode_inside] at hinner
    exact hbefore m'.item (List.mem_map_of_mem hm') hkind inner hinner

/-- Files whose names are relative paths in normal form can be packed whatever their owner and time.
Unpacking gives them back, and every directory above one of them has one entry in the archive, before the
first file in it. -/
theorem packed_files_are_read_back (files : KeyMap Bytes)
    (hnames : ∀ name ∈ files.keys, IsNormal name ∧ '\x00' ∉ name.toList)
    (hheld : ∀ file ∈ files.entries, IsHeld file) (uid mtime : Nat) :
    ∃ archive ms, pack files uid mtime = .ok archive ∧ unpack archive = .ok files ∧
      members archive = .ok ms ∧
      ∀ name ∈ files.keys, ∀ dir inner, name = dir ++ "/" ++ inner →
        ∃ before m after, ms = before ++ m :: after ∧ m.IsDirectory dir ∧
          (∀ m' ∈ before ++ after, ¬m'.IsDirectory dir) ∧
          ∀ m' ∈ before, m'.isFile → ¬m'.IsInside dir := by
  have hplain : ∀ file ∈ files.entries, IsPlain (Utf8.encode file.1) :=
    fun file hmem => .of_isNormal (hnames file.1 (List.mem_map_of_mem hmem)).1
  obtain ⟨archive, hpack, hunpack⟩ := exists_pack_unpack hnames hheld uid mtime
  obtain ⟨ms, hread, hitems⟩ := members_pack hheld hpack
  refine ⟨archive, ms, hpack, hunpack, hread, ?_⟩
  rintro name hname dir inner rfl
  obtain ⟨file, hfile, hsame⟩ := List.mem_map.1 hname
  have hfilePlain := hplain file hfile
  have hdir : Utf8.encode dir ∈ parents (Utf8.encode file.1) := by
    rw [hfilePlain.mem_parents_iff, hsame, Utf8.encode_append, encode_inside]
    exact ⟨Utf8.encode inner, rfl⟩
  have hlisted : IsListed (Utf8.encode dir) (contents [] files.entries) :=
    isListed_contents hplain hfile hdir List.not_mem_nil
  rw [← hitems] at hlisted
  exact hlisted.exists_member (hfilePlain.of_mem_parents _ hdir)

/-- The name of a directory that no header can hold. -/
def longDirectory : String :=
  String.ofList (List.replicate 120 'd')

/-- A file beside a directory that has its name, and one in a directory with a long name. -/
def nestedFiles : KeyMap Bytes :=
  .ofList [("a", [1]), ("a-b", [2]), ("a/b", [3]), (longDirectory ++ "/b", [4])]

theorem nestedFiles_entries : nestedFiles.entries =
    [("a", [1]), ("a-b", [2]), ("a/b", [3]), (longDirectory ++ "/b", [4])] := by
  decide +kernel

theorem nestedFiles_keys : nestedFiles.keys =
    [["a"], ["a-b"], ["a", "b"], [longDirectory, "b"]].map ("/".intercalate ·) := by
  rw [KeyMap.keys, nestedFiles_entries]
  decide +kernel

theorem nestedFiles_names : ∀ name ∈ nestedFiles.keys, IsNormal name ∧ '\x00' ∉ name.toList := by
  have hparts : ∀ names ∈ [["a"], ["a-b"], ["a", "b"], [longDirectory, "b"]], names ≠ [] ∧
      (∀ name ∈ names, name ≠ "" ∧ '/' ∉ name.toList ∧ name ≠ "." ∧ name ≠ "..") ∧
      '\x00' ∉ ("/".intercalate names).toList := by
    decide +kernel
  rw [nestedFiles_keys]
  intro name hmem
  obtain ⟨names, hnames, rfl⟩ := List.mem_map.1 hmem
  obtain ⟨hne, hnormal, hzero⟩ := hparts names hnames
  exact ⟨⟨names, hne, hnormal, rfl⟩, hzero⟩

theorem nestedFiles_held : ∀ file ∈ nestedFiles.entries, IsHeld file := by
  rw [nestedFiles_entries]
  simp only [List.forall_mem_cons, IsHeld]
  decide +kernel

/-- Long names and names that start others come back too. -/
theorem nestedFiles_are_read_back :
    ∃ archive ms, pack nestedFiles 10000 0 = .ok archive ∧ unpack archive = .ok nestedFiles ∧
      members archive = .ok ms ∧
      ∃ before m after, ms = before ++ m :: after ∧ m.IsDirectory longDirectory ∧
        (∀ m' ∈ before ++ after, ¬m'.IsDirectory longDirectory) ∧
        ∀ m' ∈ before, m'.isFile → ¬m'.IsInside longDirectory := by
  obtain ⟨archive, ms, hpack, hunpack, hread, hlisted⟩ :=
    packed_files_are_read_back nestedFiles nestedFiles_names nestedFiles_held 10000 0
  have hmem : longDirectory ++ "/b" ∈ nestedFiles.keys := by
    rw [nestedFiles_keys]
    decide +kernel
  exact ⟨archive, ms, hpack, hunpack, hread, hlisted _ hmem longDirectory "b" (by decide +kernel)⟩

end Proctor.Archive
