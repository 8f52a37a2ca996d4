import Mathlib.Data.List.Forall2
import Proctor.Archive.Pack
import Proctor.Archive.Unpack
import Proctor.Proofs.HeaderBlock
import Proctor.Proofs.KeyMap
import Proctor.Proofs.StoredPath

/-!
What is packed is read back: an archive of some files has a member for each of them and for each directory
above them, in the order in which they were packed, and unpacking gives every file under its clean path.
-/

namespace Proctor.Archive

/-- A member without what its header says beside its kind. -/
structure Item where
  kind : Kind
  path : Bytes
  data : Bytes

def Member.item (m : Member) : Item :=
  ⟨m.header.kind, m.path, m.data⟩

/-- Some bytes are read as members with some contents, whatever follows them. -/
def ReadAs (bs : Bytes) (items : List Item) : Prop :=
  ∀ read fuel rest, (bs ++ rest).length < fuel * blockSize →
    ∃ (ms : List Member) (fuel' : Nat), ms.map Member.item = items ∧ rest.length < fuel' * blockSize ∧
      membersFrom read {} fuel (bs ++ rest) = membersFrom (ms.reverse ++ read) {} fuel' rest

theorem readAs_nil : ReadAs [] [] := by
  intro read fuel rest hfuel
  exact ⟨[], fuel, rfl, hfuel, rfl⟩

theorem ReadAs.append {bs cs : Bytes} {items others : List Item} (h : ReadAs bs items)
    (h' : ReadAs cs others) : ReadAs (bs ++ cs) (items ++ others) := by
  intro read fuel rest hfuel
  rw [List.append_assoc] at hfuel ⊢
  obtain ⟨ms, fuel', hms, hfuel', hread⟩ := h read fuel (cs ++ rest) hfuel
  obtain ⟨ms', fuel'', hms', hfuel'', hread'⟩ := h' (ms.reverse ++ read) fuel' rest hfuel'
  refine ⟨ms ++ ms', fuel'', ?_, hfuel'', ?_⟩
  · rw [List.map_append, hms, hms']
  · rw [hread, hread', List.reverse_append, List.append_assoc]

/-! ### One member -/

theorem length_filled (data : Bytes) :
    (data ++ fill data.length).length = (data.length + (blockSize - 1)) / blockSize * blockSize := by
  rw [List.length_append, fill, List.length_replicate, blockSize]
  omega

theorem memberSize_of_plain {d : Description} (h : Header) (hd : d.attributes = none) :
    memberSize d h = h.size := by
  rw [memberSize, hd]
  split
  · rename_i hzero
    exact hzero.symm
  · rfl

section

variable {h : Header} (hname : Fits h.name) (data rest : Bytes)

include hname

theorem take_member : (member h data ++ rest).take blockSize = h.block := by
  simp only [member, List.append_assoc]
  exact List.take_left' (Header.length_block hname.length)

theorem drop_member :
    (member h data ++ rest).drop blockSize = (data ++ fill data.length) ++ rest := by
  simp only [member, List.append_assoc]
  exact List.drop_left' (Header.length_block hname.length)

theorem blockSize_le_length_member : blockSize ≤ (member h data).length := by
  simp only [member, List.length_append, Header.length_block hname.length]
  omega

/-- No member is taken for the end of an archive. -/
theorem member_not_ending : ¬((member h data ++ rest).isEmpty ∨
    (h.block.length = blockSize ∧ h.block.all (· == 0) = true)) := by
  rintro (hempty | ⟨_, hzero⟩)
  · have hlength := congrArg List.length (List.isEmpty_iff.1 hempty)
    have hlong := blockSize_le_length_member hname data
    rw [List.length_append, List.length_nil] at hlength
    rw [blockSize] at hlong
    omega
  · rw [Header.block_not_zero hname.length] at hzero
    cases hzero

end

/-- A member of its own describes the next one or stands for itself. -/
theorem membersFrom_member (read : List Member) (d : Description) (fuel : Nat) (h : Header)
    (data rest : Bytes) (hname : Fits h.name) (hsize : h.size = data.length)
    (hdata : data.length + blockSize < 2 ^ 64) (hkind : h.kind ≠ Kind.sparse)
    (hd : d.attributes = none) :
    ∃ header, header.name = h.name ∧ header.kind = h.kind ∧
      membersFrom read d (fuel + 1) (member h data ++ rest) =
        match d.add? h.kind data with
        | some (.error fault) => .error fault
        | some (.ok d) => membersFrom read d fuel rest
        | none => membersFrom (⟨header, memberPath d header, data⟩ :: read) {} fuel rest := by
  have hlt : h.size < 2 ^ 64 := by omega
  obtain ⟨header, hread, hheaderName, hheaderSize, hheaderKind⟩ :=
    Header.ofBlock_block hname.length hname.no_zero hlt
  refine ⟨header, hheaderName, hheaderKind, ?_⟩
  have hblock := Header.length_block hname.length
  have hshort : ¬h.block.length < blockSize := by omega
  have hmemberSize : memberSize d header = data.length := by
    rw [memberSize_of_plain header hd, hheaderSize, hsize]
  have hoverflow : ¬UInt64.size ≤ data.length + (blockSize - 1) := by
    unfold UInt64.size
    omega
  -- behind the block are the data, zeros up to a full block, and what follows
  have hfilled := length_filled data
  have hbody : ((data ++ fill data.length) ++ rest).take data.length = data := by
    rw [List.append_assoc]
    exact List.take_left' rfl
  have hwhole : ((data ++ fill data.length) ++ rest).drop
      ((data.length + (blockSize - 1)) / blockSize * blockSize) = rest :=
    List.drop_left' hfilled
  have hlong : ¬((data ++ fill data.length) ++ rest).length <
      (data.length + (blockSize - 1)) / blockSize * blockSize := by
    rw [List.length_append, hfilled]
    omega
  rw [membersFrom]
  rcases hadd : d.add? h.kind data with _ | _ | _ <;>
    simp only [take_member hname, drop_member hname, if_neg (member_not_ending hname data rest),
      if_neg hshort, hread, bind, Except.bind, hmemberSize, if_neg hoverflow,
      Header.isGnu_block hname.length, true_or, if_true, hbody, hheaderKind, hadd, hwhole,
      if_neg hlong, if_neg hkind]

/-- What stands for itself ends a description. -/
theorem membersFrom_entry (read : List Member) (d : Description) (fuel : Nat) (h : Header)
    (data rest : Bytes) (hname : Fits h.name) (hsize : h.size = data.length)
    (hdata : data.length + blockSize < 2 ^ 64) (hkind : h.kind = Kind.file ∨ h.kind = Kind.directory)
    (hd : d.attributes = none) :
    ∃ header, header.name = h.name ∧ header.kind = h.kind ∧
      membersFrom read d (fuel + 1) (member h data ++ rest) =
        membersFrom (⟨header, memberPath d header, data⟩ :: read) {} fuel rest := by
  have hplain : h.kind ≠ Kind.sparse ∧ d.add? h.kind data = none := by
    rcases hkind with hkind | hkind <;> rw [hkind] <;> exact ⟨by decide, rfl⟩
  obtain ⟨header, hheader, hheaderKind, hread⟩ :=
    membersFrom_member read d fuel h data rest hname hsize hdata hplain.1 hd
  refine ⟨header, hheader, hheaderKind, ?_⟩
  rw [hread, hplain.2]

theorem exists_longNameMember (path : Bytes) :
    ∃ h, longNameMember path = member h (path ++ [0]) ∧ Fits h.name ∧
      h.size = (path ++ [0]).length ∧ h.kind = Kind.longName := by
  have hname : Fits (Utf8.encode "././@LongLink") := ⟨by decide, by decide⟩
  exact ⟨_, rfl, hname, by simp, rfl⟩

theorem membersFrom_longNameMember (read : List Member) (fuel : Nat) (path rest : Bytes)
    (hpath : path.length + 1 + blockSize < 2 ^ 64) :
    membersFrom read {} (fuel + 1) (longNameMember path ++ rest) =
      membersFrom read { longName := some (path ++ [0]) } fuel rest := by
  obtain ⟨h, hmember, hname, hsize, hkind⟩ := exists_longNameMember path
  have hlength : (path ++ [0]).length + blockSize < 2 ^ 64 := by
    rw [List.length_append]
    exact hpath
  have hsparse : h.kind ≠ Kind.sparse := by
    rw [hkind]
    decide
  obtain ⟨header, _, _, hread⟩ :=
    membersFrom_member read {} fuel h (path ++ [0]) rest hname hsize hlength hsparse rfl
  rw [hmember, hread, hkind]
  rfl

/-- A member takes up a block at least, so there is fuel for it. -/
theorem exists_fuel (h : Header) {data rest : Bytes} {fuel : Nat} (hname : Fits h.name)
    (hfuel : (member h data ++ rest).length < fuel * blockSize) :
    ∃ fuel', fuel = fuel' + 1 ∧ rest.length < fuel' * blockSize := by
  have hlong := blockSize_le_length_member hname data
  rw [List.length_append] at hfuel
  cases fuel with
  | zero => omega
  | succ fuel =>
    rw [Nat.succ_mul] at hfuel
    exact ⟨fuel, rfl, by omega⟩

/-- An entry for a path is read as one member with the path that is stored. -/
theorem readAs_entry {path bs : Bytes} {h : Header} {data : Bytes}
    (hentry : entry path h data = .ok bs) (hkind : h.kind = Kind.file ∨ h.kind = Kind.directory)
    (hsize : h.size = data.length) (hdata : data.length + blockSize < 2 ^ 64)
    (hpath : path.length + 1 + blockSize < 2 ^ 64) :
    ReadAs bs [⟨h.kind, storedPath path, data⟩] := by
  intro read fuel rest hfuel
  rw [entry] at hentry
  cases hstored : storedName false path with
  | ok name =>
    simp only [hstored] at hentry
    cases hentry
    have hname := fits_storedName hstored
    obtain ⟨fuel, rfl, hleft⟩ := exists_fuel { h with name } hname hfuel
    obtain ⟨header, hheader, hheaderKind, hread⟩ :=
      membersFrom_entry read {} fuel { h with name } data rest hname hsize hdata hkind rfl
    have hpath : memberPath {} header = storedPath path := by
      rw [storedPath, hstored]
      exact hheader
    refine ⟨[⟨header, memberPath {} header, data⟩], fuel, ?_, hleft, hread⟩
    rw [List.map_singleton, Member.item, hpath, hheaderKind]
  | error e =>
    simp only [hstored] at hentry
    split at hentry
    · cases hentry
    · obtain ⟨name, hcut, hentry⟩ := bind_eq_ok.1 hentry
      cases hentry
      have hname := fits_storedName hcut
      obtain ⟨h₀, hmember, hname₀, _, _⟩ := exists_longNameMember path
      rw [List.append_assoc, hmember] at hfuel
      obtain ⟨fuel, rfl, hlonger⟩ := exists_fuel h₀ hname₀ hfuel
      obtain ⟨fuel, rfl, hleft⟩ := exists_fuel { h with name } hname hlonger
      obtain ⟨header, _, hheaderKind, hread⟩ := membersFrom_entry read
        { longName := some (path ++ [0]) } fuel { h with name } data rest hname hsize hdata hkind rfl
      have hpath' : memberPath { longName := some (path ++ [0]) } header = storedPath path := by
        simp [memberPath, storedPath, hstored]
      refine ⟨[⟨header, memberPath { longName := some (path ++ [0]) } header, data⟩], fuel, ?_,
        hleft, ?_⟩
      · rw [List.map_singleton, Member.item, hpath', hheaderKind]
      · rw [List.append_assoc, membersFrom_longNameMember read (fuel + 1) path _ hpath, hread]
        rfl

/-! ### All members -/

/-- The directories among some that get an entry, and all that have one then. -/
def newDirectories (known : List (List Component)) :
    List Bytes → List Bytes × List (List Component)
  | [] => ([], known)
  | path :: paths =>
    if known.contains (directoryKey path) then newDirectories known paths
    else
      let (rest, known) := newDirectories (directoryKey path :: known) paths
      (path :: rest, known)

theorem of_mem_newDirectories {known : List (List Component)} {paths : List Bytes} {path : Bytes}
    (h : path ∈ (newDirectories known paths).1) :
    path ∈ paths ∧ directoryKey path ∉ known := by
  induction paths generalizing known with
  | nil => cases h
  | cons first paths ih =>
    rw [newDirectories] at h
    split at h
    · obtain ⟨hmem, hnew⟩ := ih h
      exact ⟨.tail _ hmem, hnew⟩
    · rename_i hfirst
      rcases List.mem_cons.1 h with rfl | h
      · exact ⟨.head _, fun hmem => hfirst (List.contains_iff_mem.2 hmem)⟩
      · obtain ⟨hmem, hnew⟩ := ih h
        exact ⟨.tail _ hmem, fun hknown => hnew (.tail _ hknown)⟩

def directoryItem (path : Bytes) : Item :=
  ⟨Kind.directory, storedPath path, []⟩

def fileItem (file : String × Bytes) : Item :=
  ⟨Kind.file, storedPath (Utf8.encode file.1), file.2⟩

/-- What an archive of some files holds. -/
def contents (known : List (List Component)) : List (String × Bytes) → List Item
  | [] => []
  | file :: files =>
    let (directories, known) := newDirectories known (parents (Utf8.encode file.1))
    directories.map directoryItem ++ fileItem file :: contents known files

/-- A name and data of a length that a machine of 64 bits can hold. -/
def IsHeld (file : String × Bytes) : Prop :=
  (Utf8.encode file.1).length < 2 ^ 63 ∧ file.2.length < 2 ^ 63

/-- The text up to the end of a piece is the whole path, or a slash follows it. -/
theorem text_of_mem_pieces {before piece path : Bytes} :
    ∀ p ∈ pieces before piece path, (piece ++ before).reverse ++ path = p.2 ∨
      ∃ rest, (piece ++ before).reverse ++ path = p.2 ++ 47 :: rest := by
  induction path generalizing before piece with
  | nil =>
    intro p hp
    rw [pieces, List.mem_singleton] at hp
    subst hp
    exact .inl (List.append_nil _)
  | cons b path ih =>
    rw [pieces]
    split
    · rename_i hslash
      intro p hp
      rcases List.mem_cons.1 hp with rfl | hp
      · exact .inr ⟨path, by rw [hslash]⟩
      · simpa using ih p hp
    · intro p hp
      simpa using ih p hp

/-- A directory above a path is the root, or the path up to a slash or its end. -/
theorem of_mem_parents {path dir : Bytes} (h : dir ∈ parents path) :
    dir <+: path ∧ (dir = [47] ∨ dir = path ∨ ∃ rest, path = dir ++ 47 :: rest) := by
  obtain ⟨⟨c, text⟩, hc, rfl⟩ := List.mem_map.1 h
  have hmem := List.dropLast_subset _ hc
  rw [components_eq, List.mem_append] at hmem
  rcases hmem with hroot | hpiece
  · split at hroot
    · rename_i hhead
      obtain ⟨rest, rfl⟩ := List.head?_eq_some_iff.1 hhead
      cases List.mem_singleton.1 hroot
      exact ⟨List.prefix_append [47] rest, .inl rfl⟩
    · cases hroot
  · obtain ⟨⟨⟨piece, text'⟩, i⟩, hmem, hsome⟩ := List.mem_filterMap.1 hpiece
    obtain ⟨c', _, hsame⟩ := Option.map_eq_some_iff.1 hsome
    cases hsame
    rcases text_of_mem_pieces _ (List.fst_mem_of_mem_zipIdx hmem) with hwhole | ⟨rest, hwhole⟩
    · exact ⟨hwhole ▸ List.prefix_refl _, .inr (.inl hwhole.symm)⟩
    · exact ⟨⟨47 :: rest, hwhole.symm⟩, .inr (.inr ⟨rest, hwhole⟩)⟩

/-- Some bytes are the entry of an item that some files lead to. -/
inductive Enters (uid mtime : Nat) (files : List (String × Bytes)) : Item → Bytes → Prop
  | directory {file : String × Bytes} {path bs : Bytes} (hfile : file ∈ files)
      (hpath : path ∈ parents (Utf8.encode file.1)) (hentry : directoryEntry uid mtime path = .ok bs) :
      Enters uid mtime files (directoryItem path) bs
  | file {file : String × Bytes} {bs : Bytes} (hfile : file ∈ files)
      (hentry : fileEntry uid mtime (Utf8.encode file.1) file.2 = .ok bs) :
      Enters uid mtime files (fileItem file) bs

theorem Enters.mono {uid mtime : Nat} {files files' : List (String × Bytes)} {i : Item} {bs : Bytes}
    (h : Enters uid mtime files i bs) (hfiles : files ⊆ files') : Enters uid mtime files' i bs := by
  cases h with
  | directory hfile hpath hentry => exact .directory (hfiles hfile) hpath hentry
  | file hfile hentry => exact .file (hfiles hfile) hentry

theorem directoryEntries_eq_ok {uid mtime : Nat} {paths : List Bytes}
    {known known' : List (List Component)} {bs : Bytes}
    (h : directoryEntries uid mtime known paths = .ok (bs, known')) :
    (newDirectories known paths).2 = known' ∧ ∃ entries : List Bytes, bs = entries.flatten ∧
      List.Forall₂ (fun path bs => directoryEntry uid mtime path = .ok bs)
        (newDirectories known paths).1 entries := by
  induction paths generalizing known known' bs with
  | nil =>
    cases h
    exact ⟨rfl, [], rfl, .nil⟩
  | cons path paths ih =>
    rw [directoryEntries] at h
    rw [newDirectories]
    by_cases hknown : known.contains (directoryKey path)
    · rw [if_pos hknown] at h ⊢
      exact ih h
    · rw [if_neg hknown] at h ⊢
      obtain ⟨first, hfirst, h⟩ := bind_eq_ok.1 h
      obtain ⟨⟨rest, known''⟩, hrest, h⟩ := bind_eq_ok.1 h
      cases h
      obtain ⟨hsame, entries, rfl, hentries⟩ := ih hrest
      exact ⟨hsame, first :: entries, rfl, .cons hfirst hentries⟩

/-- The entries of some files are those of what an archive of them holds. -/
theorem fileEntries_eq_ok {uid mtime : Nat} {files : List (String × Bytes)}
    {known : List (List Component)} {bs : Bytes} (h : fileEntries uid mtime known files = .ok bs) :
    ∃ entries : List Bytes, bs = entries.flatten ∧
      List.Forall₂ (Enters uid mtime files) (contents known files) entries := by
  induction files generalizing known bs with
  | nil =>
    cases h
    exact ⟨[], rfl, .nil⟩
  | cons file files ih =>
    obtain ⟨name, data⟩ := file
    rw [fileEntries] at h
    obtain ⟨⟨directories, known'⟩, hdirectories, h⟩ := bind_eq_ok.1 h
    obtain ⟨first, hfirst, h⟩ := bind_eq_ok.1 h
    obtain ⟨rest, hrest, h⟩ := bind_eq_ok.1 h
    cases h
    obtain ⟨hknown, above, rfl, habove⟩ := directoryEntries_eq_ok hdirectories
    obtain ⟨entries, rfl, hentries⟩ := ih hrest
    have hparents : ∀ path ∈ (newDirectories known (parents (Utf8.encode name))).1,
        path ∈ parents (Utf8.encode name) := fun path hpath => (of_mem_newDirectories hpath).1
    refine ⟨above ++ first :: entries, by simp, ?_⟩
    rw [contents]
    simp only [hknown]
    apply List.rel_append
    · rw [List.forall₂_map_left_iff]
      refine ((List.forall₂_and_left _ _).2 ⟨hparents, habove⟩).imp ?_
      rintro path bs ⟨hpath, hentry⟩
      exact .directory (.head _) hpath hentry
    · exact .cons (.file (.head _) hfirst)
        (hentries.imp fun i bs henters => henters.mono (List.subset_cons_self _ _))

theorem readAs_of_enters {uid mtime : Nat} {files : List (String × Bytes)}
    (hfiles : ∀ file ∈ files, IsHeld file) {i : Item} {bs : Bytes} (h : Enters uid mtime files i bs) :
    ReadAs bs [i] := by
  cases h with
  | @directory file path bs hfile hpath hentry =>
    have hname : (Utf8.encode file.1).length < 2 ^ 63 := (hfiles file hfile).1
    have hlength := (of_mem_parents hpath).1.length_le
    exact readAs_entry hentry (.inr rfl) rfl (by decide) (by rw [blockSize]; omega)
  | @file file bs hfile hentry =>
    obtain ⟨hname, hdata⟩ := hfiles file hfile
    exact readAs_entry hentry (.inl rfl) rfl (by rw [blockSize]; omega) (by rw [blockSize]; omega)

theorem readAs_flatten {items : List Item} {entries : List Bytes}
    (h : List.Forall₂ (fun i bs => ReadAs bs [i]) items entries) : ReadAs entries.flatten items := by
  induction h with
  | nil => exact readAs_nil
  | cons hentry _ ih => exact hentry.append ih

theorem readAs_fileEntries {uid mtime : Nat} {files : List (String × Bytes)}
    (hfiles : ∀ file ∈ files, IsHeld file) {known : List (List Component)} {bs : Bytes}
    (h : fileEntries uid mtime known files = .ok bs) : ReadAs bs (contents known files) := by
  obtain ⟨entries, rfl, hentries⟩ := fileEntries_eq_ok h
  exact readAs_flatten (hentries.imp fun i bs => readAs_of_enters hfiles)

theorem membersFrom_ending (read : List Member) (fuel : Nat) :
    membersFrom read {} (fuel + 1) ending = .ok read.reverse := by
  have htake : ending.take blockSize = List.replicate blockSize 0 := by
    rw [ending, List.take_replicate]
    rfl
  rw [membersFrom]
  simp only [htake]
  rw [if_pos]
  · rfl
  · exact .inr ⟨List.length_replicate, List.all_eq_true.2 fun b hb => by
      rw [List.eq_of_mem_replicate hb]
      rfl⟩

/-- The members of a packed archive. -/
theorem members_pack {files : KeyMap Bytes} (hfiles : ∀ file ∈ files.entries, IsHeld file)
    {uid mtime : Nat} {archive : Bytes} (h : pack files uid mtime = .ok archive) :
    ∃ ms, members archive = .ok ms ∧ ms.map Member.item = contents [] files.entries := by
  obtain ⟨bs, hbs, h⟩ := bind_eq_ok.1 h
  cases h
  have hfuel : (bs ++ ending).length < ((bs ++ ending).length / blockSize + 2) * blockSize := by
    rw [blockSize]
    omega
  obtain ⟨ms, fuel, hms, hleft, hread⟩ := readAs_fileEntries hfiles hbs [] _ ending hfuel
  refine ⟨ms, ?_, hms⟩
  cases fuel with
  | zero =>
    rw [Nat.zero_mul] at hleft
    omega
  | succ fuel =>
    rw [members, hread, membersFrom_ending, List.append_nil, List.reverse_reverse]

/-! ### When packing succeeds -/

theorem exists_directoryEntries {uid mtime : Nat} {paths : List Bytes}
    (hpaths : ∀ path ∈ paths, ∃ bs, directoryEntry uid mtime path = .ok bs)
    (known : List (List Component)) : ∃ r, directoryEntries uid mtime known paths = .ok r := by
  induction paths generalizing known with
  | nil => exact ⟨_, rfl⟩
  | cons path paths ih =>
    have hrest := ih fun path hmem => hpaths path (.tail _ hmem)
    rw [directoryEntries]
    split
    · exact hrest known
    · obtain ⟨first, hfirst⟩ := hpaths path (.head _)
      obtain ⟨⟨rest, known'⟩, hrest⟩ := hrest (directoryKey path :: known)
      exact ⟨(first ++ rest, known'), by simp [hfirst, hrest, bind, Except.bind]⟩

theorem exists_fileEntries {uid mtime : Nat} {files : List (String × Bytes)}
    (hfiles : ∀ file ∈ files,
      (∀ dir ∈ parents (Utf8.encode file.1), ∃ bs, directoryEntry uid mtime dir = .ok bs) ∧
        ∃ bs, fileEntry uid mtime (Utf8.encode file.1) file.2 = .ok bs)
    (known : List (List Component)) : ∃ bs, fileEntries uid mtime known files = .ok bs := by
  induction files generalizing known with
  | nil => exact ⟨_, rfl⟩
  | cons file files ih =>
    obtain ⟨name, data⟩ := file
    obtain ⟨habove, first, hfirst⟩ := hfiles _ (.head _)
    obtain ⟨⟨directories, known'⟩, hdirectories⟩ := exists_directoryEntries habove known
    obtain ⟨rest, hrest⟩ := ih (fun file hmem => hfiles file (.tail _ hmem)) known'
    exact ⟨directories ++ first ++ rest,
      by simp [fileEntries, hdirectories, hfirst, hrest, bind, Except.bind]⟩

/-- Files can be packed when each of them and each directory above them has an entry. -/
theorem exists_pack {files : KeyMap Bytes} {uid mtime : Nat}
    (hfiles : ∀ file ∈ files.entries,
      (∀ dir ∈ parents (Utf8.encode file.1), ∃ bs, directoryEntry uid mtime dir = .ok bs) ∧
        ∃ bs, fileEntry uid mtime (Utf8.encode file.1) file.2 = .ok bs) :
    ∃ archive, pack files uid mtime = .ok archive := by
  obtain ⟨bs, hbs⟩ := exists_fileEntries hfiles []
  exact ⟨bs ++ ending, by simp [pack, hbs, bind, Except.bind]⟩

/-! ### The files -/

def Item.isFile (i : Item) : Bool :=
  i.kind = Kind.file || i.kind = Kind.oldFile

/-- The file of an item under its clean path. -/
def Item.cleaned? (i : Item) : Option (String × Bytes) :=
  (cleanPath? i.path).map (·, i.data)

theorem filesOf_eq (ms : List Member) :
    filesOf ms = KeyMap.ofList (((ms.map Member.item).filter Item.isFile).filterMap Item.cleaned?) := by
  rw [filesOf, List.filter_map, List.filterMap_map]
  rfl

theorem filter_contents (known : List (List Component)) (files : List (String × Bytes)) :
    (contents known files).filter Item.isFile = files.map fileItem := by
  induction files generalizing known with
  | nil => rfl
  | cons file files ih =>
    rw [contents, List.filter_append, List.filter_cons_of_pos rfl, ih, List.map_cons,
      List.filter_eq_nil_iff.2, List.nil_append]
    intro i hi
    obtain ⟨path, _, rfl⟩ := List.mem_map.1 hi
    exact Bool.false_ne_true

/-- Some files under their clean paths; of several with one path the last stands. -/
def cleaned (files : KeyMap Bytes) : KeyMap Bytes :=
  KeyMap.ofList (files.entries.filterMap fun file =>
    (cleanPath? (Utf8.encode file.1)).map (·, file.2))

/-- Unpacking what was packed gives the files under their clean paths. -/
theorem unpack_pack {files : KeyMap Bytes} (hfiles : ∀ file ∈ files.entries, IsHeld file)
    {uid mtime : Nat} {archive : Bytes} (h : pack files uid mtime = .ok archive) :
    unpack archive = .ok (cleaned files) := by
  obtain ⟨ms, hread, hms⟩ := members_pack hfiles h
  have hclean : Item.cleaned? ∘ fileItem =
      fun file => (cleanPath? (Utf8.encode file.1)).map (·, file.2) := by
    funext file
    simp only [Function.comp_apply, Item.cleaned?, fileItem, clean_storedPath]
  rw [unpack, hread, Except.map, filesOf_eq, hms, filter_contents, List.filterMap_map, hclean,
    cleaned]

/-- The files whose clean path is a given one, in the order of their names. -/
def spellings (files : KeyMap Bytes) (path : String) : List (String × Bytes) :=
  files.entries.filter fun file => cleanPath? (Utf8.encode file.1) = some path

/-- The last spelling of a path stands for it. -/
theorem find?_cleaned (files : KeyMap Bytes) (path : String) :
    (cleaned files).find? path = (spellings files path).getLast?.map (·.2) := by
  rw [cleaned, KeyMap.find?_ofList, spellings]
  induction files.entries with
  | nil => rfl
  | cons file rest ih =>
    by_cases hpath : cleanPath? (Utf8.encode file.1) = some path
    · rw [List.filterMap_cons, hpath, List.filter_cons_of_pos (by simp [hpath])]
      simp only [Option.map_some, List.reverse_cons]
      rw [List.lookup_append, ih, List.getLast?_cons]
      cases ((rest.filter fun file =>
        cleanPath? (Utf8.encode file.1) = some path).getLast?) <;> simp
    · rw [List.filter_cons_of_neg (by simp [hpath]), ← ih, List.filterMap_cons]
      cases hclean : cleanPath? (Utf8.encode file.1) with
      | none => rfl
      | some other =>
        have hne : path ≠ other := fun heq => hpath (hclean.trans (congrArg some heq.symm))
        simp only [Option.map_some, List.reverse_cons]
        rw [List.lookup_append, KeyMap.lookup_pair, if_neg hne]
        simp

end Proctor.Archive
