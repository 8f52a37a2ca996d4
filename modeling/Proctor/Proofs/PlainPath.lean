import Mathlib.Data.List.Induction
import Proctor.Archive.Pack
import Proctor.Proofs.StoredPath

/-!
Paths in normal form as bytes: a name, or a name in a directory that has such a path. What is above such a
path, what a header holds of it and what a cut leaves of it all follow its names, the last one first.
-/

namespace Proctor.Archive

/-! ### One more name -/

/-- What stands behind a slash is the last piece. -/
theorem pieces_concat {name : Bytes} (hname : 47 ∉ name) (before piece path : Bytes) :
    pieces before piece (path ++ 47 :: name) =
      pieces before piece path ++ [(name, (piece ++ before).reverse ++ (path ++ 47 :: name))] := by
  induction path generalizing before piece with
  | nil =>
    have hlast := pieces_append hname (47 :: (piece ++ before)) [] []
    rw [List.append_nil] at hlast
    simp [pieces, hlast]
  | cons b path ih =>
    rw [List.cons_append, pieces, pieces]
    split
    · rw [ih]
      simp
    · rw [ih]
      simp

theorem pieces_ne_nil (before piece path : Bytes) : pieces before piece path ≠ [] := by
  induction path generalizing piece with
  | nil => exact List.cons_ne_nil _ _
  | cons b path ih =>
    rw [pieces]
    split
    · exact List.cons_ne_nil _ _
    · exact ih _

/-- What stands behind a slash is the last component, if it is one. -/
theorem components_concat {path name : Bytes} (hpath : path ≠ []) (hname : 47 ∉ name) :
    components (path ++ 47 :: name) =
      components path ++ ((component? false name).map (·, path ++ 47 :: name)).toList := by
  have hindex : ((pieces [] [] path).length == 0) = false := by
    have hcount := List.length_pos_iff.2 (pieces_ne_nil [] [] path)
    rw [beq_eq_false_iff_ne]
    omega
  have hhead : (path ++ 47 :: name).head? = path.head? := by
    cases path with
    | nil => exact absurd rfl hpath
    | cons b path => rfl
  rw [components_eq, components_eq, hhead, pieces_concat hname, List.zipIdx_append,
    List.filterMap_append, List.append_assoc]
  congr 2
  cases h : component? false name <;> simp [hindex, h]

theorem parts_concat {path name : Bytes} (hpath : path ≠ []) (hname : 47 ∉ name) :
    parts (path ++ 47 :: name) = parts path ++ (component? false name).toList := by
  rw [parts, components_concat hpath hname, List.map_append]
  cases component? false name <;> rfl

theorem components_name {name : Bytes} (h : IsName name) : components name = [(.normal name, name)] := by
  have hhead : name.head? ≠ some 47 := fun hhead =>
    h.not_slashed (List.mem_of_mem_head? hhead)
  have hpieces := pieces_append h.not_slashed [] [] []
  rw [List.append_nil] at hpieces
  rw [components_eq, if_neg hhead, hpieces]
  simp [pieces, component?_name true h]

/-! ### Plain paths -/

/-- A relative path in normal form. -/
inductive IsPlain : Bytes → Prop
  | name {name : Bytes} (h : IsName name) : IsPlain name
  | inside {dir name : Bytes} (hdir : IsPlain dir) (hname : IsName name) : IsPlain (dir ++ 47 :: name)

namespace IsPlain

variable {path : Bytes}

theorem ne_nil (h : IsPlain path) : path ≠ [] := by
  cases h with
  | name h => exact h.not_empty
  | inside hdir hname => simp

theorem getLast?_ne (h : IsPlain path) : path.getLast? ≠ some 47 := by
  cases h with
  | name h => exact fun hlast => h.not_slashed (List.mem_of_getLast? hlast)
  | @inside dir name hdir hname =>
    rw [List.getLast?_append_of_ne_nil _ (List.cons_ne_nil _ _),
      List.getLast?_cons_of_ne_nil hname.not_empty]
    exact fun hlast => hname.not_slashed (List.mem_of_getLast? hlast)

theorem components_inside {dir name : Bytes} (hdir : IsPlain dir) (hname : IsName name) :
    components (dir ++ 47 :: name) = components dir ++ [(.normal name, dir ++ 47 :: name)] := by
  rw [components_concat hdir.ne_nil hname.not_slashed, component?_name false hname]
  rfl

theorem parts_inside {dir name : Bytes} (hdir : IsPlain dir) (hname : IsName name) :
    parts (dir ++ 47 :: name) = parts dir ++ [.normal name] := by
  rw [parts, components_inside hdir hname, List.map_append]
  rfl

theorem of_names {name : Bytes} {rest : List Bytes} (hname : IsName name)
    (hrest : ∀ name ∈ rest, IsName name) : IsPlain (name ++ rest.flatMap (47 :: ·)) := by
  induction rest using List.reverseRecOn with
  | nil =>
    rw [List.flatMap_nil, List.append_nil]
    exact .name hname
  | append_singleton rest last ih =>
    have hdir := ih fun name hmem => hrest name (List.mem_append_left _ hmem)
    have hlast := hrest last (List.mem_append_right _ (.head _))
    rw [List.flatMap_append, List.flatMap_singleton, ← List.append_assoc]
    exact .inside hdir hlast

theorem of_isNormal {text : String} (h : IsNormal text) : IsPlain (Utf8.encode text) := by
  obtain ⟨names, hne, hnames, rfl⟩ := h
  cases names with
  | nil => exact absurd rfl hne
  | cons name rest =>
    rw [encode_intercalate]
    apply of_names (isName_encode (hnames name (.head _)))
    intro bytes hmem
    obtain ⟨n, hn, rfl⟩ := List.mem_map.1 hmem
    exact isName_encode (hnames n (.tail _ hn))

theorem current_not_mem_parts (h : IsPlain path) : .current ∉ parts path := by
  induction h with
  | name h =>
    rw [parts, components_name h]
    simp
  | inside hdir hname ih =>
    rw [parts_inside hdir hname]
    simpa using ih

/-- The names of a plain path make it up. -/
theorem foldl_parts (h : IsPlain path) :
    ((parts path).map Component.bytes).foldl addName [] = path := by
  induction h with
  | name h =>
    rw [parts, components_name h]
    rfl
  | inside hdir hname ih =>
    rw [parts_inside hdir hname, List.map_append, List.foldl_append, ih]
    exact if_neg hdir.ne_nil

theorem eq_of_parts {other : Bytes} (h : IsPlain path) (h' : IsPlain other)
    (hparts : parts path = parts other) : path = other := by
  rw [← h.foldl_parts, hparts, h'.foldl_parts]

/-! ### What is above -/

/-- The texts of the components are the directories above a path, and the path. -/
theorem map_text_components (h : IsPlain path) :
    (components path).map (·.2) = parents path ++ [path] := by
  cases h with
  | name h =>
    rw [parents, components_name h]
    rfl
  | inside hdir hname =>
    rw [parents, components_inside hdir hname, List.dropLast_concat, List.map_append]
    rfl

theorem parents_inside {dir name : Bytes} (hdir : IsPlain dir) (hname : IsName name) :
    parents (dir ++ 47 :: name) = parents dir ++ [dir] := by
  rw [parents, components_inside hdir hname, List.dropLast_concat, hdir.map_text_components]

theorem parents_name {name : Bytes} (h : IsName name) : parents name = [] := by
  rw [parents, components_name h]
  rfl

theorem of_mem_parents (h : IsPlain path) : ∀ dir ∈ parents path, IsPlain dir := by
  induction h with
  | name h => simp [parents_name h]
  | inside hdir hname ih =>
    rw [parents_inside hdir hname]
    intro dir hmem
    rcases List.mem_append.1 hmem with hmem | hmem
    · exact ih dir hmem
    · rwa [List.mem_singleton.1 hmem]

/-- The directories above a path are what it starts with up to a slash. -/
theorem mem_parents_iff (h : IsPlain path) {dir : Bytes} :
    dir ∈ parents path ↔ ∃ rest, path = dir ++ 47 :: rest := by
  induction h with
  | @name name h =>
    rw [parents_name h]
    constructor
    · intro hmem
      cases hmem
    · rintro ⟨rest, rfl⟩
      exact absurd (by simp) h.not_slashed
  | @inside top name htop hname ih =>
    rw [parents_inside htop hname, List.mem_append, List.mem_singleton, ih]
    constructor
    · rintro (⟨rest, rfl⟩ | rfl)
      · exact ⟨rest ++ 47 :: name, by simp⟩
      · exact ⟨name, rfl⟩
    · rintro ⟨rest, heq⟩
      rcases List.append_eq_append_iff.1 heq with ⟨front, hdir, hfront⟩ | ⟨front, htop', hfront⟩
      · cases front with
        | nil => exact .inr (by simpa using hdir)
        | cons b front =>
          rw [List.cons_append, List.cons.injEq] at hfront
          exact absurd (hfront.2 ▸ by simp) hname.not_slashed
      · cases front with
        | nil => exact .inr (by simpa using htop'.symm)
        | cons b front =>
          rw [List.cons_append, List.cons.injEq] at hfront
          exact .inl ⟨front, by rw [htop', hfront.1]⟩

end IsPlain

/-! ### What is stored -/

theorem store_of_le {stored piece : Bytes} (hlength : stored.length + piece.length ≤ nameSize)
    (hzero : 0 ∉ piece) : store stored piece = .ok (stored ++ piece) := by
  rw [store, if_neg (by omega), if_neg]
  exact fun h => hzero (List.contains_iff_mem.1 h)

/-- A component that fits is stored. -/
theorem storeNext_of_le {alone cut : Bool} {stored : Bytes} {c : Component} {rest : List Component}
    (hlength : (addName stored c.bytes).length ≤ nameSize) (hzero : 0 ∉ c.bytes) :
    storeComponents.storeNext alone cut stored c rest =
      storeComponents alone cut (addName stored c.bytes) rest := by
  rw [storeComponents.storeNext]
  cases stored with
  | nil =>
    have hpiece : store [] c.bytes = .ok c.bytes := store_of_le (by simpa [addName] using hlength) hzero
    simp only [List.isEmpty_nil, if_true, bind, Except.bind, hpiece]
    rfl
  | cons b stored =>
    have hadd : addName (b :: stored) c.bytes = (b :: stored ++ [47]) ++ c.bytes := by simp [addName]
    rw [hadd, List.length_append] at hlength
    have hslash : store (b :: stored) [47] = .ok (b :: stored ++ [47]) := by
      apply store_of_le
      · rw [List.length_append] at hlength
        omega
      · decide
    have hpiece := store_of_le hlength hzero
    simp only [List.isEmpty_cons, Bool.false_eq_true, if_false, bind, Except.bind, hslash, hpiece, hadd]

/-- What a header holds for a path whose components can be stored. -/
theorem storedName_of_stored {cut : Bool} {path stored : Bytes}
    (h : storeComponents ((parts path).length == 1) cut [] (parts path) = .ok stored)
    (hne : stored ≠ []) :
    storedName cut path = if path.getLast? = some 47 then store stored [47] else .ok stored := by
  have hnotEmpty : stored.isEmpty = false := by simpa using hne
  unfold parts at h
  simp only [storedName, h, bind, Except.bind, hnotEmpty, Bool.false_eq_true, if_false]

namespace IsPlain

variable {path : Bytes}

/-- A plain path that fits is stored as it is, whatever follows it. -/
theorem storeComponents_eq (h : IsPlain path) (hlength : path.length ≤ nameSize) (hzero : 0 ∉ path)
    (alone cut : Bool) (rest : List Component) :
    storeComponents alone cut [] (parts path ++ rest) = storeComponents alone cut path rest := by
  induction h generalizing rest with
  | @name name h =>
    have hparts : parts name = [.normal name] := by
      rw [parts, components_name h]
      rfl
    rw [hparts, List.singleton_append, storeComponents]
    exact storeNext_of_le hlength hzero
  | @inside dir name hdir hname ih =>
    have hadd : addName dir name = dir ++ 47 :: name := if_neg hdir.ne_nil
    have hdirLength : dir.length ≤ nameSize := by
      rw [List.length_append] at hlength
      omega
    have hdirZero : 0 ∉ dir := fun hmem => hzero (List.mem_append_left _ hmem)
    have hnameZero : 0 ∉ name := fun hmem => hzero (List.mem_append_right _ (.tail _ hmem))
    rw [parts_inside hdir hname, List.append_assoc, ih hdirLength hdirZero, List.singleton_append,
      storeComponents, ← hadd]
    rw [← hadd] at hlength
    exact storeNext_of_le hlength hnameZero

theorem storedName_eq (h : IsPlain path) (hlength : path.length ≤ nameSize) (hzero : 0 ∉ path)
    (cut : Bool) : storedName cut path = .ok path := by
  have hstored := h.storeComponents_eq hlength hzero ((parts path).length == 1) cut []
  rw [List.append_nil, storeComponents] at hstored
  rw [storedName_of_stored hstored h.ne_nil, if_neg h.getLast?_ne]

/-- A plain path is read back as it is, whether a header holds it or not. -/
theorem storedPath_eq (h : IsPlain path) : storedPath path = path := by
  unfold storedPath
  split
  · rename_i name hname
    obtain ⟨stored, hstored, _, hsame⟩ := storedName_eq_ok hname
    have hcurrent := h.current_not_mem_parts
    obtain ⟨names, hnames, rfl⟩ := names_of_storeComponents (fun _ => hcurrent) hstored
    have hkeep : (parts path).filter (· ≠ .current) = parts path :=
      List.filter_eq_self.2 fun c hc => decide_eq_true fun heq => hcurrent (heq ▸ hc)
    have hbytes : (parts path).map Component.bytes = names := by
      rw [← hkeep, hnames, List.map_map]
      exact List.map_id names
    rcases hsame with rfl | ⟨hslash, _⟩
    · rw [← hbytes]
      exact h.foldl_parts
    · exact absurd hslash h.getLast?_ne
  · rfl

/-! ### Cut paths -/

/-- What a cut leaves of a plain path has whole names but for the last one. -/
theorem cases_of_prefix (h : IsPlain path) {front : Bytes} (hfront : front <+: path)
    (hlong : 2 < front.length) :
    IsPlain front ∨ ∃ dir rest, IsPlain dir ∧ front = dir ++ 47 :: rest ∧
      (rest = [] ∨ rest = [46] ∨ rest = [46, 46]) := by
  induction h with
  | @name name h =>
    refine .inl (.name ⟨?_, fun hmem => h.not_slashed (hfront.subset hmem), ?_, ?_⟩) <;>
      · rintro rfl
        simp at hlong
  | @inside dir name hdir hname ih =>
    obtain ⟨back, heq⟩ := hfront
    rcases List.append_eq_append_iff.1 heq with ⟨behind, rfl, _⟩ | ⟨rest, rfl, hrest⟩
    · exact ih (List.prefix_append front behind)
    · cases rest with
      | nil =>
        rw [List.append_nil]
        exact .inl hdir
      | cons b rest =>
        obtain ⟨rfl, rfl⟩ := List.cons.inj hrest
        by_cases hcut : rest = [] ∨ rest = [46] ∨ rest = [46, 46]
        · exact .inr ⟨dir, rest, hdir, rfl, hcut⟩
        · have hname : IsName rest :=
            { not_empty := fun h => hcut (.inl h)
              not_slashed := fun hmem => hname.not_slashed (List.mem_append_left _ hmem)
              not_current := fun h => hcut (.inr (.inl h))
              not_parent := fun h => hcut (.inr (.inr h)) }
          exact .inl (.inside hdir hname)

/-- A header can hold what a cut leaves of a plain path. -/
theorem exists_storedName_of_prefix (h : IsPlain path) {front : Bytes} (hfront : front <+: path)
    (hlong : 2 < front.length) (hlength : front.length ≤ nameSize) (hzero : 0 ∉ front) :
    ∃ name, storedName true front = .ok name := by
  rcases h.cases_of_prefix hfront hlong with hplain | ⟨dir, rest, hdir, rfl, hrest⟩
  · exact ⟨front, hplain.storedName_eq hlength hzero true⟩
  · have hdirLength : dir.length ≤ nameSize := by
      rw [List.length_append] at hlength
      omega
    have hdirZero : 0 ∉ dir := fun hmem => hzero (List.mem_append_left _ hmem)
    have hdirStored := hdir.storeComponents_eq hdirLength hdirZero
    -- nothing and a dot behind the last slash are no components, two dots are one
    rcases hrest with rfl | rfl | rfl
    · have hparts : parts (dir ++ [47]) = parts dir ++ [] := parts_concat hdir.ne_nil (by decide)
      have hstored : storeComponents ((parts (dir ++ [47])).length == 1) true []
          (parts (dir ++ [47])) = .ok dir := by
        rw [hparts, hdirStored, storeComponents]
      refine ⟨dir ++ [47], ?_⟩
      rw [storedName_of_stored hstored hdir.ne_nil, if_pos (by simp)]
      exact store_of_le (by simpa using hlength) (by decide)
    · have hparts : parts (dir ++ [47, 46]) = parts dir ++ [] :=
        parts_concat hdir.ne_nil (by decide)
      have hstored : storeComponents ((parts (dir ++ [47, 46])).length == 1) true []
          (parts (dir ++ [47, 46])) = .ok dir := by
        rw [hparts, hdirStored, storeComponents]
      refine ⟨dir, ?_⟩
      rw [storedName_of_stored hstored hdir.ne_nil, if_neg (by simp)]
    · have hparts : parts (dir ++ [47, 46, 46]) = parts dir ++ [.parent] :=
        parts_concat hdir.ne_nil (by decide)
      have hadd : addName dir Component.parent.bytes = dir ++ [47, 46, 46] := if_neg hdir.ne_nil
      have hstored : storeComponents ((parts (dir ++ [47, 46, 46])).length == 1) true []
          (parts (dir ++ [47, 46, 46])) = .ok (dir ++ [47, 46, 46]) := by
        rw [hparts, hdirStored, storeComponents, if_pos ⟨rfl, rfl⟩,
          storeNext_of_le (by rwa [hadd]) (by decide), hadd, storeComponents]
      refine ⟨dir ++ [47, 46, 46], ?_⟩
      rw [storedName_of_stored hstored (by simp), if_neg (by simp)]

end IsPlain

theorem takeWhile_map_some_append (cs : List Char) (more : List (Option Char)) :
    (cs.map some ++ more).takeWhile Option.isSome = cs.map some ++ more.takeWhile Option.isSome := by
  apply List.takeWhile_append_of_pos
  simp

/-- A text is its own start. -/
theorem textStart_encode (text : String) : textStart (Utf8.encode text) = Utf8.encode text := by
  have hall := takeWhile_map_some_append text.toList []
  rw [List.append_nil] at hall
  simp [textStart, hall]

/-- At most three bytes of a text that is cut off do not count for its start. -/
theorem textStart_of_prefix {text : String} {front : Bytes} (h : front <+: Utf8.encode text) :
    textStart front <+: front ∧ front.length ≤ (textStart front).length + 3 := by
  obtain ⟨cs, c, part, rest, htake, hpart, hrest⟩ :=
    Utf8.exists_take text.toList front.length
  have hfront : front = cs.flatMap Utf8.encodeChar ++ part := by
    rw [← htake]
    exact List.prefix_iff_eq_take.1 h
  have hstart : textStart front = cs.flatMap Utf8.encodeChar := by
    rw [textStart, hfront]
    have hall := takeWhile_map_some_append cs []
    rw [List.append_nil] at hall
    rcases Utf8.scan_part cs hpart hrest with hscan | hscan
    · simp [hscan, hall]
    · simp [hscan]
  have hshort : part.length ≤ 3 := by
    have hlength := Utf8.length_encodeChar c
    have hpos := List.length_pos_iff.2 hrest
    rw [hpart, List.length_append] at hlength
    omega
  rw [hstart, hfront, List.length_append]
  exact ⟨List.prefix_append _ _, by omega⟩

/-- A long path has an entry when a header can hold what a cut leaves of it. -/
theorem exists_entry_of_cut {path name : Bytes} (hlong : nameSize ≤ path.length)
    (hcut : storedName true (textStart (path.take nameSize)) = .ok name) (header : Header)
    (data : Bytes) : ∃ bs, entry path header data = .ok bs := by
  unfold entry
  cases hstored : storedName false path with
  | ok stored => exact ⟨_, rfl⟩
  | error e =>
    simp only [hcut, bind, Except.bind]
    rw [if_neg (Nat.not_lt_of_le hlong)]
    exact ⟨_, rfl⟩

/-- A plain path that starts a text can be stored, in the header or in a member of its own. -/
theorem IsPlain.exists_entry {path : Bytes} (h : IsPlain path) (hzero : 0 ∉ path) {text : String}
    (htext : path <+: Utf8.encode text) (header : Header) (data : Bytes) :
    ∃ bs, entry path header data = .ok bs := by
  by_cases hlength : path.length ≤ nameSize
  · unfold entry
    rw [h.storedName_eq hlength hzero false]
    exact ⟨_, rfl⟩
  · have hcut : path.take nameSize <+: path := List.take_prefix nameSize path
    have hcutLength : (path.take nameSize).length = nameSize :=
      List.length_take_of_le (Nat.le_of_not_le hlength)
    obtain ⟨hstart, hshort⟩ := textStart_of_prefix (hcut.trans htext)
    rw [hcutLength] at hshort
    have hsize : nameSize = 100 := rfl
    have hlong : 2 < (textStart (path.take nameSize)).length := by omega
    obtain ⟨name, hname⟩ := h.exists_storedName_of_prefix (hstart.trans hcut) hlong
      (Nat.le_trans hstart.length_le (Nat.le_of_eq hcutLength))
      fun hmem => hzero (hcut.subset (hstart.subset hmem))
    exact exists_entry_of_cut (Nat.le_of_not_le hlength) hname header data

end Proctor.Archive
