import Proctor.Archive.Path
import Proctor.Proofs.Lists
import Proctor.Proofs.Utf8

/-!
Paths as archives store them. A stored path is its names with a slash between each two and perhaps one at
the end, so it has the names of the path that it was made of.
-/

namespace Proctor.Archive

/-- What stands between slashes and is not nothing, a dot or two dots. -/
structure IsName (name : Bytes) : Prop where
  not_empty : name ≠ []
  not_slashed : 47 ∉ name
  not_current : name ≠ [46]
  not_parent : name ≠ [46, 46]

/-- The components of a path without their texts. -/
def parts (path : Bytes) : List Component :=
  (components path).map (·.1)

theorem components_eq (path : Bytes) :
    components path = (if path.head? = some 47 then [(.root, [47])] else []) ++
      (pieces [] [] path).zipIdx.filterMap fun ((piece, text), i) =>
        (component? (i == 0) piece).map (·, text) := by
  by_cases hroot : path.head? = some 47
  · obtain ⟨rest, rfl⟩ := List.head?_eq_some_iff.1 hroot
    rw [if_pos hroot]
    rfl
  · rw [if_neg hroot]
    unfold components
    split
    · exact absurd rfl hroot
    · rfl

theorem parts_eq (path : Bytes) :
    parts path = (if path.head? = some 47 then [.root] else []) ++
      ((pieces [] [] path).map (·.1)).zipIdx.filterMap fun (piece, i) =>
        component? (i == 0) piece := by
  rw [parts, components_eq, List.map_append]
  congr 1
  · split <;> rfl
  · rw [List.map_filterMap, List.zipIdx_map, List.filterMap_map]
    congr 1
    funext p
    obtain ⟨⟨piece, text⟩, i⟩ := p
    cases h : component? (i == 0) piece <;> simp [h]

theorem component?_name (isFirst : Bool) {name : Bytes} (h : IsName name) :
    component? isFirst name = some (.normal name) := by
  rw [component?, if_neg h.not_empty, if_neg h.not_current, if_neg h.not_parent]

theorem pieces_append {name : Bytes} (hname : 47 ∉ name) (before piece rest : Bytes) :
    pieces before piece (name ++ rest) = pieces before (name.reverse ++ piece) rest := by
  induction name generalizing piece with
  | nil => rfl
  | cons b name ih =>
    have hb : b ≠ 47 := fun hb => hname (hb ▸ .head _)
    rw [List.cons_append, pieces, if_neg hb, ih fun hmem => hname (.tail _ hmem),
      List.reverse_cons, List.append_assoc]
    rfl

/-- A path is cut at each slash. -/
theorem map_fst_pieces {name : Bytes} {rest : List Bytes} (hname : 47 ∉ name)
    (hrest : ∀ name ∈ rest, 47 ∉ name) (before : Bytes) :
    (pieces before [] (name ++ rest.flatMap (47 :: ·))).map (·.1) = name :: rest := by
  induction rest generalizing name before with
  | nil =>
    rw [pieces_append hname, List.append_nil]
    simp [pieces]
  | cons next rest ih =>
    have hnext := ih (hrest next (.head _)) fun name hmem => hrest name (.tail _ hmem)
    rw [pieces_append hname, List.append_nil, List.flatMap_cons, List.cons_append, pieces,
      if_pos rfl, List.map_cons, hnext, List.reverse_reverse]

/-- Nothing between slashes is slashed. -/
theorem not_slashed_of_mem_pieces {before piece path : Bytes} (hpiece : 47 ∉ piece) :
    ∀ p ∈ pieces before piece path, 47 ∉ p.1 := by
  induction path generalizing before piece with
  | nil =>
    intro p hp
    rw [pieces, List.mem_singleton] at hp
    subst hp
    exact fun h => hpiece (List.mem_reverse.1 h)
  | cons b path ih =>
    rw [pieces]
    split
    · intro p hp
      rcases List.mem_cons.1 hp with rfl | hp
      · exact fun h => hpiece (List.mem_reverse.1 h)
      · exact ih List.not_mem_nil p hp
    · rename_i hb
      apply ih
      intro h
      rcases List.mem_cons.1 h with h | h
      · exact hb h.symm
      · exact hpiece h

theorem isName_of_mem_parts {path name : Bytes} (h : .normal name ∈ parts path) : IsName name := by
  rw [parts_eq] at h
  rcases List.mem_append.1 h with h | h
  · split at h <;> simp at h
  · obtain ⟨⟨piece, i⟩, hmem, hcomponent⟩ := List.mem_filterMap.1 h
    obtain ⟨p, hp, hpiece⟩ := List.mem_map.1 (List.fst_mem_of_mem_zipIdx hmem)
    have hslash := not_slashed_of_mem_pieces List.not_mem_nil p hp
    simp only at hpiece hcomponent
    rw [hpiece] at hslash
    unfold component? at hcomponent
    split at hcomponent
    · cases hcomponent
    · split at hcomponent
      · split at hcomponent <;> cases hcomponent
      · split at hcomponent
        · cases hcomponent
        · cases hcomponent
          exact ⟨‹_›, hslash, ‹_›, ‹_›⟩

/-- A path of names has them as its parts; a slash may follow them. -/
theorem parts_names {name : Bytes} {rest : List Bytes} (hname : IsName name)
    (hrest : ∀ name ∈ rest, IsName name ∨ name = []) :
    parts (name ++ rest.flatMap (47 :: ·)) =
      .normal name :: (rest.filter (· ≠ [])).map .normal := by
  have hroot : (name ++ rest.flatMap (47 :: ·)).head? ≠ some 47 := by
    cases name with
    | nil => exact absurd rfl hname.not_empty
    | cons b name => exact fun h => hname.not_slashed (Option.some.inj h ▸ .head _)
  have hslash : ∀ name ∈ rest, 47 ∉ name := by
    intro name hmem
    rcases hrest name hmem with h | rfl
    · exact h.not_slashed
    · exact List.not_mem_nil
  rw [parts_eq, if_neg hroot, map_fst_pieces hname.not_slashed hslash, List.zipIdx_cons,
    List.filterMap_cons, List.nil_append]
  simp only [component?_name _ hname]
  congr 1
  clear hslash hroot
  generalize 0 + 1 = i
  induction rest generalizing i with
  | nil => rfl
  | cons next rest ih =>
    have ih := ih (fun name hmem => hrest name (.tail _ hmem)) (i + 1)
    rw [List.zipIdx_cons, List.filterMap_cons, ih]
    rcases hrest next (.head _) with h | rfl
    · simp only [component?_name _ h, List.filter_cons_of_pos, h.not_empty, ne_eq, not_false_eq_true,
        decide_true, List.map_cons]
    · rfl

/-! ### What is stored -/

/-- A header has room for a name, and the name can be told from the zeros behind it. -/
structure Fits (name : Bytes) : Prop where
  length : name.length ≤ nameSize
  no_zero : 0 ∉ name

theorem store_eq_ok {stored piece name : Bytes} (h : store stored piece = .ok name) :
    name = stored ++ piece ∧ (Fits stored → Fits name) := by
  unfold store at h
  split at h
  · cases h
  · split at h
    · cases h
    · rename_i hlength hzero
      cases h
      refine ⟨rfl, fun hfits => ⟨?_, ?_⟩⟩
      · rw [List.length_append]
        omega
      · intro hmem
        rcases List.mem_append.1 hmem with hmem | hmem
        · exact hfits.no_zero hmem
        · exact hzero (List.contains_iff_mem.2 hmem)

/-- A name behind what is stored. -/
def addName (stored name : Bytes) : Bytes :=
  if stored = [] then name else stored ++ 47 :: name

theorem storeNext_eq_ok {alone cut : Bool} {stored name : Bytes} {c : Component}
    {rest : List Component}
    (h : storeComponents.storeNext alone cut stored c rest = .ok name) :
    storeComponents alone cut (addName stored c.bytes) rest = .ok name ∧
      (Fits stored → Fits (addName stored c.bytes)) := by
  rw [storeComponents.storeNext] at h
  cases stored with
  | nil =>
    rw [if_pos List.isEmpty_nil] at h
    obtain ⟨_, hnil, h⟩ := bind_eq_ok.1 h
    cases hnil
    obtain ⟨next, hnext, h⟩ := bind_eq_ok.1 h
    obtain ⟨rfl, hfits⟩ := store_eq_ok hnext
    exact ⟨h, hfits⟩
  | cons b stored =>
    rw [if_neg (by simp)] at h
    obtain ⟨slashed, hslashed, h⟩ := bind_eq_ok.1 h
    obtain ⟨rfl, hfits⟩ := store_eq_ok hslashed
    obtain ⟨next, hnext, h⟩ := bind_eq_ok.1 h
    obtain ⟨rfl, hfits'⟩ := store_eq_ok hnext
    have hadd : addName (b :: stored) c.bytes = b :: stored ++ [47] ++ c.bytes := by
      simp [addName]
    rw [hadd]
    exact ⟨h, fun hstored => hfits' (hfits hstored)⟩

theorem fits_storeComponents {alone cut : Bool} {stored name : Bytes} {cs : List Component}
    (h : storeComponents alone cut stored cs = .ok name) (hstored : Fits stored) : Fits name := by
  induction cs generalizing stored with
  | nil =>
    rw [storeComponents] at h
    cases h
    exact hstored
  | cons c rest ih =>
    have next (h : storeComponents.storeNext alone cut stored c rest = .ok name) : Fits name := by
      obtain ⟨hrest, hfits⟩ := storeNext_eq_ok h
      exact ih hrest (hfits hstored)
    unfold storeComponents at h
    cases c with
    | root => cases h
    | parent =>
      simp only at h
      split at h
      · exact next h
      · cases h
    | current =>
      simp only at h
      split at h
      · exact next h
      · exact ih h hstored
    | normal n => exact next h

/-- The name for a path is what is stored of its components, and a slash when the path ends with one. -/
theorem storedName_eq_ok {cut : Bool} {path name : Bytes} (h : storedName cut path = .ok name) :
    ∃ stored, storeComponents ((parts path).length == 1) cut [] (parts path) = .ok stored ∧
      stored ≠ [] ∧ (name = stored ∨ path.getLast? = some 47 ∧ store stored [47] = .ok name) := by
  obtain ⟨stored, hstored, h⟩ := bind_eq_ok.1 h
  refine ⟨stored, hstored, ?_⟩
  split at h
  · cases h
  · rename_i hne
    refine ⟨fun hnil => hne (List.isEmpty_iff.2 hnil), ?_⟩
    split at h
    · exact .inr ⟨‹_›, h⟩
    · cases h
      exact .inl rfl

theorem fits_storedName {cut : Bool} {path name : Bytes} (h : storedName cut path = .ok name) :
    Fits name := by
  obtain ⟨stored, hstored, _, hname⟩ := storedName_eq_ok h
  have hfits := fits_storeComponents hstored ⟨by decide, by decide⟩
  rcases hname with rfl | ⟨_, hname⟩
  · exact hfits
  · exact (store_eq_ok hname).2 hfits

/-! ### Clean paths -/

/-- The clean path of some components. -/
def cleanParts? (cs : List Component) : Option String := do
  let names ← (cs.filter (· ≠ .current)).mapM fun
    | .normal name => Utf8.decode? name
    | _ => none
  if names.isEmpty then none else some ("/".intercalate names)

theorem cleanPath?_eq (path : Bytes) : cleanPath? path = cleanParts? (parts path) := by
  have hfilter : (parts path).filter (· ≠ .current) =
      ((components path).filter (·.1 ≠ .current)).map (·.1) := by
    rw [parts, List.filter_map]
    rfl
  rw [cleanPath?, cleanParts?, hfilter, List.mapM_map]
  congr 2
  funext ⟨c, text⟩
  cases c <;> rfl

theorem cleanParts?_of_filter {cs ds : List Component}
    (h : cs.filter (· ≠ .current) = ds.filter (· ≠ .current)) : cleanParts? cs = cleanParts? ds := by
  rw [cleanParts?, cleanParts?, h]

theorem foldl_addName {stored : Bytes} (h : stored ≠ []) (names : List Bytes) :
    names.foldl addName stored = stored ++ names.flatMap (47 :: ·) := by
  induction names generalizing stored with
  | nil => simp
  | cons name names ih =>
    rw [List.foldl_cons, addName, if_neg h, ih (by simp), List.flatMap_cons, List.append_assoc]

theorem names_of_storeComponents {alone : Bool} {stored name : Bytes} {cs : List Component}
    (hcurrent : alone = true → .current ∉ cs)
    (h : storeComponents alone false stored cs = .ok name) :
    ∃ names : List Bytes, cs.filter (· ≠ .current) = names.map .normal ∧ name = names.foldl addName stored := by
  induction cs generalizing stored with
  | nil =>
    rw [storeComponents] at h
    cases h
    exact ⟨[], rfl, rfl⟩
  | cons c rest ih =>
    have hrest : alone = true → .current ∉ rest := fun ha hmem => hcurrent ha (.tail _ hmem)
    unfold storeComponents at h
    cases c with
    | root => cases h
    | parent =>
      simp only [Bool.false_eq_true, false_and, if_false] at h
      cases h
    | current =>
      have halone : ¬alone = true := fun ha => hcurrent ha (.head _)
      simp only at h
      rw [if_neg halone] at h
      obtain ⟨names, hnames, hname⟩ := ih hrest h
      refine ⟨names, ?_, hname⟩
      rw [List.filter_cons_of_neg (by simp), hnames]
    | normal n =>
      obtain ⟨names, hnames, hname⟩ := ih hrest (storeNext_eq_ok h).1
      refine ⟨n :: names, ?_, hname⟩
      rw [List.filter_cons_of_pos (by simp), hnames, List.map_cons]

/-- A path that is stored has the components that it had before, but for inner dots. -/
theorem filter_parts_storedName {path name : Bytes} (h : storedName false path = .ok name) :
    (parts name).filter (· ≠ .current) = (parts path).filter (· ≠ .current) := by
  obtain ⟨stored, hstored, hne, hname⟩ := storedName_eq_ok h
  by_cases hdot : parts path = [.current]
  · -- a path that is only a dot is stored as it is
    have hdotted : storeComponents true false [] [.current] = .ok [46] := by
      simp [storeComponents, storeComponents.storeNext, store, nameSize, Component.bytes, bind,
        Except.bind]
    rw [hdot] at hstored ⊢
    cases hstored.symm.trans hdotted
    rcases hname with rfl | ⟨_, hname⟩
    · rfl
    · obtain ⟨rfl, _⟩ := store_eq_ok hname
      rfl
  · have hcurrent : ((parts path).length == 1) = true → .current ∉ parts path := by
      intro hlength hmem
      obtain ⟨c, hc⟩ := List.length_eq_one_iff.1 (beq_iff_eq.1 hlength)
      rw [hc] at hmem hdot
      exact hdot (by rw [List.mem_singleton.1 hmem])
    obtain ⟨names, hnames, hfold⟩ := names_of_storeComponents hcurrent hstored
    have hall : ∀ n ∈ names, IsName n := by
      intro n hn
      have hmem : Component.normal n ∈ (parts path).filter (· ≠ .current) := by
        rw [hnames]
        exact List.mem_map.2 ⟨n, hn, rfl⟩
      exact isName_of_mem_parts (List.mem_of_mem_filter hmem)
    cases names with
    | nil => exact absurd hfold hne
    | cons n rest =>
      have hn := hall n (.head _)
      have hrest : ∀ m ∈ rest, IsName m := fun m hm => hall m (.tail _ hm)
      have hstored' : stored = n ++ rest.flatMap (47 :: ·) := by
        rw [hfold, List.foldl_cons]
        exact foldl_addName hn.not_empty rest
      have hkeep : rest.filter (· ≠ []) = rest :=
        List.filter_eq_self.2 fun m hm => decide_eq_true (hrest m hm).not_empty
      -- a slash at the end is one more, empty name
      have hparts : parts name = .normal n :: rest.map .normal := by
        rcases hname with rfl | ⟨_, hname⟩
        · rw [hstored', parts_names hn fun m hm => .inl (hrest m hm), hkeep]
        · obtain ⟨rfl, _⟩ := store_eq_ok hname
          have hslash : stored ++ [47] = n ++ (rest ++ [[]]).flatMap (47 :: ·) := by
            rw [hstored', List.flatMap_append, List.append_assoc]
            rfl
          rw [hslash, parts_names hn, List.filter_append, hkeep]
          · simp
          · intro m hm
            rcases List.mem_append.1 hm with hm | hm
            · exact .inl (hrest m hm)
            · exact .inr (List.mem_singleton.1 hm)
      rw [hparts, hnames, ← List.map_cons]
      apply List.filter_eq_self.2
      intro c hc
      obtain ⟨m, _, rfl⟩ := List.mem_map.1 hc
      rfl

/-- A path that is stored has the clean path that it had before. -/
theorem clean_storedName {path name : Bytes} (h : storedName false path = .ok name) :
    cleanPath? name = cleanPath? path := by
  rw [cleanPath?_eq, cleanPath?_eq]
  exact cleanParts?_of_filter (filter_parts_storedName h)

/-- The path of a member as it is read back. A path that no header can hold has a member of its own, which
keeps it as it is. -/
def storedPath (path : Bytes) : Bytes :=
  match storedName false path with
  | .ok name => name
  | .error _ => path

theorem clean_storedPath (path : Bytes) : cleanPath? (storedPath path) = cleanPath? path := by
  unfold storedPath
  cases h : storedName false path with
  | error e => rfl
  | ok name => exact clean_storedName h

/-- A relative path in its normal form: names with one slash between each two, none of them a dot or two
dots. -/
def IsNormal (path : String) : Prop :=
  ∃ names : List String, names ≠ [] ∧
    (∀ name ∈ names, name ≠ "" ∧ '/' ∉ name.toList ∧ name ≠ "." ∧ name ≠ "..") ∧
    path = "/".intercalate names

/-- A byte of ASCII in the bytes of a character is that character. -/
theorem eq_of_mem_encodeChar {c : Char} {b : UInt8} (hb : b.toNat < 0x80)
    (h : b ∈ Utf8.encodeChar c) : c = Char.ofNat b.toNat := by
  have byte {n : Nat} (hn : n < 256) (hbyte : b = UInt8.ofNat n) : n = b.toNat := by
    rw [hbyte, Utf8.toNat_ofNat hn]
  have hc := Utf8.toNat_bounds c
  simp only [Utf8.encodeChar] at h
  -- the bytes of a character beyond ASCII have their first bit set
  split at h
  · have hself := byte (by omega) (List.mem_singleton.1 h)
    rw [← hself, Char.ofNat_toNat]
  · split at h
    · rcases List.mem_pair.1 h with h | h <;> exact absurd (byte (by omega) h) (by omega)
    · split at h <;> simp only [List.mem_cons, List.not_mem_nil, or_false] at h
      · rcases h with h | h | h <;> exact absurd (byte (by omega) h) (by omega)
      · rcases h with h | h | h | h <;> exact absurd (byte (by omega) h) (by omega)

theorem not_mem_encode {text : String} {b : UInt8} (hb : b.toNat < 0x80)
    (h : Char.ofNat b.toNat ∉ text.toList) : b ∉ Utf8.encode text := by
  intro hmem
  obtain ⟨c, hc, hbyte⟩ := List.mem_flatMap.1 hmem
  exact h (eq_of_mem_encodeChar hb hbyte ▸ hc)

theorem isName_encode {name : String}
    (h : name ≠ "" ∧ '/' ∉ name.toList ∧ name ≠ "." ∧ name ≠ "..") : IsName (Utf8.encode name) where
  not_empty hnil := h.1 (Utf8.encode_injective hnil)
  not_slashed := not_mem_encode (by decide) h.2.1
  not_current hdot := h.2.2.1 (Utf8.encode_injective (hdot.trans (by decide)))
  not_parent hdots := h.2.2.2 (Utf8.encode_injective (hdots.trans (by decide)))

theorem encode_intercalate (name : String) (rest : List String) :
    Utf8.encode ("/".intercalate (name :: rest)) =
      Utf8.encode name ++ (rest.map Utf8.encode).flatMap (47 :: ·) := by
  induction rest generalizing name with
  | nil => simp
  | cons next rest ih =>
    have hslash : Utf8.encode "/" = [47] := by decide
    rw [String.intercalate_cons_cons, Utf8.encode_append, Utf8.encode_append, ih, hslash,
      List.map_cons, List.flatMap_cons, List.append_assoc]
    rfl

/-- A path in normal form is its own clean path. -/
theorem clean_of_isNormal {path : String} (h : IsNormal path) :
    cleanPath? (Utf8.encode path) = some path := by
  obtain ⟨names, hne, hnames, rfl⟩ := h
  cases names with
  | nil => exact absurd rfl hne
  | cons name rest =>
    have hname := isName_encode (hnames name (.head _))
    have hrest : ∀ m ∈ rest.map Utf8.encode, IsName m := by
      intro m hm
      obtain ⟨n, hn, rfl⟩ := List.mem_map.1 hm
      exact isName_encode (hnames n (.tail _ hn))
    have hkeep : (rest.map Utf8.encode).filter (· ≠ []) = rest.map Utf8.encode :=
      List.filter_eq_self.2 fun m hm => decide_eq_true (hrest m hm).not_empty
    have hparts : parts (Utf8.encode ("/".intercalate (name :: rest))) =
        (name :: rest).map fun n => .normal (Utf8.encode n) := by
      rw [encode_intercalate, parts_names hname fun m hm => .inl (hrest m hm), hkeep, List.map_map]
      rfl
    have hread (ns : List String) : (((ns.map fun n => Component.normal (Utf8.encode n)).filter
        (· ≠ .current)).mapM fun
          | .normal n => Utf8.decode? n
          | _ => none) = some ns := by
      induction ns with
      | nil => rfl
      | cons n ns ih =>
        rw [List.map_cons, List.filter_cons_of_pos (by simp), List.mapM_cons, ih]
        simp
    rw [cleanPath?_eq, hparts, cleanParts?, hread]
    rfl

end Proctor.Archive
