import Proctor.Proofs.Lists
import Proctor.Report.Location

/-!
Where a failure text is said to have failed. The search takes the earliest place that can be read as a frame
of a stack trace, and there the longest name; but it lets a name run over quotes, up to the next slash. So
the first frame of a trace is what is found exactly when no name that starts there or earlier can run over
its closing quote to a later line number.

Main statement: `location_is_first_frame_iff`. A frame without a directory behind the first one, as code that
was typed in has it, is such a line number: `typed_frame_is_run_into`.
-/

namespace Proctor.Location

/-- A text that reads `File "directory/name", line number`, whatever follows. The name may hold quotes. -/
structure Reads (cs directory name number : List Char) : Prop where
  text : ∃ rest, (∀ c ∈ rest.head?, Text.isDigit c = false) ∧
    cs = "File \"".toList ++ (directory ++ '/' :: (name ++ ("\", line ".toList ++ (number ++ rest))))
  directory : '"' ∉ directory
  name_ne : name ≠ []
  name : '/' ∉ name
  number_ne : number ≠ []
  number : ∀ c ∈ number, Text.isDigit c = true

/-- A frame of a stack trace: the first quote behind the directory ends the name. -/
def Frame (cs name number : List Char) : Prop :=
  '"' ∉ name ∧ ∃ directory, Reads cs directory name number

/-- A text that reads as a frame when the name runs over its closing quote. -/
def RunsOver (cs : List Char) : Prop :=
  ∃ directory name number, '"' ∈ name ∧ Reads cs directory name number

/-- The first frame in a text, behind `before`. -/
structure FirstFrame (body before cs name number : List Char) : Prop where
  body_eq : body = before ++ cs
  frame : Frame cs name number
  first : ∀ start rest, before = start ++ rest → rest ≠ [] → ∀ name number, ¬Frame (rest ++ cs) name number

/-- A text that starts with `tests/`, a name and a line number. -/
def LeadsWithPlace (body : List Char) : Prop :=
  ∃ name digit rest, body = "tests/".toList ++ (name ++ ':' :: digit :: rest) ∧ ':' ∉ name ∧ '/' ∉ name ∧
    Text.isDigit digit = true

/-! ### The parts of a frame -/

theorem after?_eq_some_iff {lead cs rest : List Char} : after? lead cs = some rest ↔ cs = lead ++ rest := by
  induction lead generalizing cs with
  | nil => simp [after?]
  | cons l lead ih =>
    cases cs with
    | nil => simp [after?]
    | cons c cs =>
      by_cases h : l = c
      · simp [after?, h, ih]
      · simp [after?, h, Ne.symm h]

theorem number?_eq_some_iff {cs number : List Char} :
    number? cs = some number ↔ number ≠ [] ∧ cs.takeWhile Text.isDigit = number := by
  rw [number?]
  cases cs.takeWhile Text.isDigit with
  | nil => simp [eq_comm]
  | cons d ds =>
    rw [Option.some.injEq, iff_and_self]
    rintro rfl
    exact List.cons_ne_nil d ds

theorem takeWhile_eq_iff {p : Char → Bool} {cs part : List Char} :
    cs.takeWhile p = part ↔
      ∃ rest, (∀ c ∈ rest.head?, p c = false) ∧ cs = part ++ rest ∧ ∀ c ∈ part, p c = true := by
  constructor
  · intro h
    obtain ⟨hcs, hpart, hrest⟩ := takeWhile_dropWhile_eq_iff.1 ⟨h, rfl⟩
    exact ⟨cs.dropWhile p, hrest, hcs, hpart⟩
  · rintro ⟨rest, hrest, hcs, hpart⟩
    exact (takeWhile_dropWhile_eq_iff.2 ⟨hcs, hpart, hrest⟩).1

theorem line?_eq_some_iff {cs number : List Char} :
    line? cs = some number ↔ ∃ rest, (∀ c ∈ rest.head?, Text.isDigit c = false) ∧
      cs = "\", line ".toList ++ (number ++ rest) ∧ number ≠ [] ∧ ∀ c ∈ number, Text.isDigit c = true := by
  simp only [line?, Option.bind_eq_bind, Option.bind_eq_some_iff, after?_eq_some_iff, number?_eq_some_iff,
    takeWhile_eq_iff]
  constructor
  · rintro ⟨_, rfl, hne, rest, hrest, rfl, hdigits⟩
    exact ⟨rest, hrest, rfl, hne, hdigits⟩
  · rintro ⟨rest, hrest, rfl, hne, hdigits⟩
    exact ⟨_, rfl, hne, rest, hrest, rfl, hdigits⟩

/-- What follows a directory, read as a name with a line number behind it. -/
structure Named (cs name number : List Char) : Prop where
  text : ∃ tail, cs = name ++ tail ∧ line? tail = some number
  name : '/' ∉ name

theorem reads_iff {cs directory name number : List Char} :
    Reads cs directory name number ↔ '"' ∉ directory ∧ name ≠ [] ∧
      ∃ tail, cs = "File \"".toList ++ (directory ++ '/' :: tail) ∧ Named tail name number := by
  constructor
  · rintro ⟨⟨rest, hrest, rfl⟩, hdirectory, hname_ne, hname, hnumber_ne, hnumber⟩
    refine ⟨hdirectory, hname_ne, _, rfl, ⟨_, rfl, ?_⟩, hname⟩
    exact line?_eq_some_iff.2 ⟨rest, hrest, rfl, hnumber_ne, hnumber⟩
  · rintro ⟨hdirectory, hname_ne, _, rfl, ⟨tail, rfl, hline⟩, hname⟩
    obtain ⟨rest, hrest, rfl, hnumber_ne, hnumber⟩ := line?_eq_some_iff.1 hline
    exact ⟨⟨rest, hrest, rfl⟩, hdirectory, hname_ne, hname, hnumber_ne, hnumber⟩

/-! ### The longest name -/

theorem named_nil_iff {cs number : List Char} : Named cs [] number ↔ line? cs = some number := by
  constructor
  · rintro ⟨⟨tail, rfl, hline⟩, -⟩
    exact hline
  · intro hline
    exact ⟨⟨cs, rfl, hline⟩, by simp⟩

theorem named_cons_iff {c c' : Char} {cs name number : List Char} :
    Named (c :: cs) (c' :: name) number ↔ c' = c ∧ c ≠ '/' ∧ Named cs name number := by
  constructor
  · rintro ⟨⟨tail, htext, hline⟩, hname⟩
    rw [List.cons_append, List.cons.injEq] at htext
    obtain ⟨rfl, rfl⟩ := htext
    rw [List.mem_cons, not_or] at hname
    exact ⟨rfl, Ne.symm hname.1, ⟨tail, rfl, hline⟩, hname.2⟩
  · rintro ⟨rfl, hc, ⟨tail, rfl, hline⟩, hname⟩
    exact ⟨⟨tail, rfl, hline⟩, by simp [Ne.symm hc, hname]⟩

/-- A line number starts with a quote. -/
theorem line?_cons_of_ne {c : Char} {cs : List Char} (h : c ≠ '"') : line? (c :: cs) = none := by
  have hquote : "\", line ".toList = '"' :: ", line ".toList := rfl
  rw [line?, hquote, after?, if_neg (Ne.symm h)]
  rfl

/-- Where a line number starts, the search keeps what it has passed over, if that is not empty. -/
theorem name?_cons (found : Option (List Char × List Char)) (passed : List Char) (c : Char)
    (cs : List Char) : ∃ found',
    name? found passed (c :: cs) = (if c = '/' then found' else name? found' (c :: passed) cs) ∧
    ((passed ≠ [] ∧ ∃ number, line? (c :: cs) = some number ∧ found' = some (passed.reverse, number)) ∨
      ((passed = [] ∨ line? (c :: cs) = none) ∧ found' = found)) := by
  cases passed with
  | nil => exact ⟨found, rfl, .inr ⟨.inl rfl, rfl⟩⟩
  | cons d passed =>
    cases hline : line? (c :: cs) with
    | none => exact ⟨found, by simp only [name?, hline], .inr ⟨.inr rfl, rfl⟩⟩
    | some number =>
      exact ⟨some ((d :: passed).reverse, number), by simp only [name?, hline],
        .inl ⟨List.cons_ne_nil d passed, number, rfl, rfl⟩⟩

/-- The search for a name ends with the longest one that starts with what was passed over, or with what it
had found. -/
theorem name?_cases (found : Option (List Char × List Char)) (passed cs : List Char) :
    (∃ part number, name? found passed cs = some (passed.reverse ++ part, number) ∧
      passed.reverse ++ part ≠ [] ∧ Named cs part number ∧ ∀ part' number', passed.reverse ++ part' ≠ [] →
        Named cs part' number' → part'.length ≤ part.length) ∨
    (name? found passed cs = found ∧ ∀ part' number', passed.reverse ++ part' ≠ [] →
      ¬Named cs part' number') := by
  induction cs generalizing found passed with
  | nil =>
    refine .inr ⟨rfl, ?_⟩
    rintro part' number' - ⟨⟨tail, htext, hline⟩, -⟩
    obtain ⟨rfl, rfl⟩ := List.nil_eq_append_iff.1 htext
    cases hline
  | cons c cs ih =>
    obtain ⟨found', hname, hfound⟩ := name?_cons found passed c cs
    rw [hname]
    by_cases hc : c = '/'
    · have hline : line? (c :: cs) = none := line?_cons_of_ne (by rw [hc]; decide)
      rw [if_pos hc]
      rcases hfound with ⟨-, number, hnumber, -⟩ | ⟨-, rfl⟩
      · rw [hline] at hnumber
        cases hnumber
      · refine .inr ⟨rfl, ?_⟩
        rintro (_ | ⟨c', part'⟩) number' - hnamed
        · rw [named_nil_iff, hline] at hnamed
          cases hnamed
        · exact (named_cons_iff.1 hnamed).2.1 hc
    · rw [if_neg hc]
      rcases ih found' (c :: passed) with ⟨part, number, heq, -, hnamed, hlongest⟩ | ⟨heq, hnone⟩
      · refine .inl ⟨c :: part, number, by simp [heq], by simp, named_cons_iff.2 ⟨rfl, hc, hnamed⟩, ?_⟩
        rintro (_ | ⟨c', part'⟩) number' - hnamed'
        · exact Nat.zero_le _
        · exact Nat.succ_le_succ (hlongest part' number' (by simp) (named_cons_iff.1 hnamed').2.2)
      · have hlonger (c' : Char) (part' number' : List Char) : ¬Named (c :: cs) (c' :: part') number' :=
          fun hnamed => hnone part' number' (by simp) (named_cons_iff.1 hnamed).2.2
        rw [heq]
        rcases hfound with ⟨hpassed, number, hnumber, rfl⟩ | ⟨hshort, rfl⟩
        · refine .inl ⟨[], number, by simp, by simp [hpassed], named_nil_iff.2 hnumber, ?_⟩
          rintro (_ | ⟨c', part'⟩) number' - hnamed'
          · exact Nat.le_refl _
          · exact absurd hnamed' (hlonger c' part' number')
        · refine .inr ⟨rfl, ?_⟩
          rintro (_ | ⟨c', part'⟩) number' hne hnamed
          · rw [named_nil_iff] at hnamed
            rcases hshort with rfl | hline
            · exact hne rfl
            · rw [hline] at hnamed
              cases hnamed
          · exact hlonger c' part' number' hnamed

/-! ### The directory -/

/-- No slash stands before the first quote. -/
def InLastPart (cs : List Char) : Prop :=
  '/' ∉ cs.takeWhile (· ≠ '"')

theorem inLastPart_cons {c : Char} (h : c ≠ '"') (cs : List Char) :
    InLastPart (c :: cs) ↔ c ≠ '/' ∧ InLastPart cs := by
  rw [InLastPart, List.takeWhile_cons_of_pos (by simpa using h), List.mem_cons, not_or, InLastPart]
  exact and_congr_left fun _ => ne_comm

/-- A text splits at its last slash before a quote, which is at its start or further behind. -/
theorem exists_split_cons {c : Char} (h : c ≠ '"') {cs rest : List Char} :
    (∃ directory, c :: cs = directory ++ '/' :: rest ∧ '"' ∉ directory ∧ InLastPart rest) ↔
      (c = '/' ∧ cs = rest ∧ InLastPart rest) ∨
        ∃ directory, cs = directory ++ '/' :: rest ∧ '"' ∉ directory ∧ InLastPart rest := by
  constructor
  · rintro ⟨_ | ⟨d, directory⟩, htext, hdirectory, hrest⟩
    · rw [List.nil_append, List.cons.injEq] at htext
      exact .inl ⟨htext.1, htext.2, hrest⟩
    · rw [List.cons_append, List.cons.injEq] at htext
      exact .inr ⟨directory, htext.2, fun hm => hdirectory (.tail _ hm), hrest⟩
  · rintro (⟨rfl, rfl, hrest⟩ | ⟨directory, rfl, hdirectory, hrest⟩)
    · exact ⟨[], rfl, by simp, hrest⟩
    · exact ⟨c :: directory, rfl, by simp [Ne.symm h, hdirectory], hrest⟩

theorem afterDirectory?_eq_some_iff {found : Option (List Char)} {cs rest : List Char} :
    afterDirectory? found cs = some rest ↔
      (∃ directory, cs = directory ++ '/' :: rest ∧ '"' ∉ directory ∧ InLastPart rest) ∨
        (found = some rest ∧ InLastPart cs) := by
  induction cs generalizing found with
  | nil => simp [afterDirectory?, InLastPart]
  | cons c cs ih =>
    by_cases hquote : c = '"'
    · subst hquote
      have hnone : ¬∃ directory, '"' :: cs = directory ++ '/' :: rest ∧ '"' ∉ directory ∧
          InLastPart rest := by
        rintro ⟨_ | ⟨d, directory⟩, htext, hdirectory, -⟩
        · simp at htext
        · rw [List.cons_append, List.cons.injEq] at htext
          exact hdirectory (htext.1 ▸ .head _)
      have hlast : InLastPart ('"' :: cs) := by simp [InLastPart]
      rw [afterDirectory?, if_pos rfl]
      simp only [hnone, hlast, false_or, and_true]
    · rw [afterDirectory?, if_neg hquote, ih, exists_split_cons hquote, inLastPart_cons hquote]
      by_cases hslash : c = '/'
      · have hsame : cs = rest ∧ InLastPart cs ↔ cs = rest ∧ InLastPart rest :=
          and_congr_right fun he => by rw [he]
        simp only [hslash, if_true, Option.some.injEq, true_and, ne_eq, not_true_eq_false, false_and,
          and_false, or_false, hsame]
        exact or_comm
      · simp only [hslash, if_false, false_and, false_or, ne_eq, not_false_eq_true, true_and]

theorem inLastPart_append {name : List Char} (h : '/' ∉ name) (tail : List Char) :
    InLastPart (name ++ '"' :: tail) := by
  induction name with
  | nil => simp [InLastPart]
  | cons c name ih =>
    rw [List.mem_cons, not_or] at h
    by_cases hquote : c = '"'
    · simp [InLastPart, hquote]
    · exact (inLastPart_cons hquote _).2 ⟨Ne.symm h.1, ih h.2⟩

/-! ### A frame at the start of a text -/

/-- A frame is found behind its directory, which is all up to the last slash before a quote. -/
theorem Reads.exists_tail {cs directory name number : List Char} (h : Reads cs directory name number) :
    ∃ tail, after? "File \"".toList cs = some (directory ++ '/' :: tail) ∧
      afterDirectory? none (directory ++ '/' :: tail) = some tail ∧ name ≠ [] ∧ Named tail name number := by
  obtain ⟨hdirectory, hname, tail, rfl, hnamed⟩ := reads_iff.1 h
  refine ⟨tail, after?_eq_some_iff.2 rfl, afterDirectory?_eq_some_iff.2 (.inl ?_), hname, hnamed⟩
  obtain ⟨⟨line, rfl, hline⟩, hslash⟩ := hnamed
  obtain ⟨rest, -, rfl, -⟩ := line?_eq_some_iff.1 hline
  exact ⟨directory, rfl, hdirectory, inLastPart_append hslash _⟩

theorem exists_reads {cs inside tail name number : List Char}
    (hafter : after? "File \"".toList cs = some inside) (htail : afterDirectory? none inside = some tail)
    (hname : name ≠ []) (hnamed : Named tail name number) : ∃ directory, Reads cs directory name number := by
  rcases afterDirectory?_eq_some_iff.1 htail with ⟨directory, rfl, hdirectory, -⟩ | ⟨hnone, -⟩
  · exact ⟨directory, reads_iff.2 ⟨hdirectory, hname, tail, after?_eq_some_iff.1 hafter, hnamed⟩⟩
  · cases hnone

/-- A text that reads as a frame gives the longest name that it can be read with. -/
theorem frame?_cases (cs : List Char) :
    (∃ name number, frame? cs = some (name, number) ∧ (∃ directory, Reads cs directory name number) ∧
      ∀ directory' name' number', Reads cs directory' name' number' → name' <+: name) ∨
    (frame? cs = none ∧ ∀ directory name number, ¬Reads cs directory name number) := by
  cases hafter : after? "File \"".toList cs with
  | none =>
    refine .inr ⟨by rw [frame?, hafter]; rfl, fun directory name number h => ?_⟩
    obtain ⟨tail, hafter', -⟩ := h.exists_tail
    rw [hafter] at hafter'
    cases hafter'
  | some inside =>
    have hreads {directory name number : List Char} (h : Reads cs directory name number) :
        ∃ tail, afterDirectory? none inside = some tail ∧ name ≠ [] ∧ Named tail name number := by
      obtain ⟨tail, hafter', htail⟩ := h.exists_tail
      rw [hafter, Option.some.injEq] at hafter'
      exact ⟨tail, hafter' ▸ htail⟩
    cases htail : afterDirectory? none inside with
    | none =>
      refine .inr ⟨by rw [frame?, hafter]; simp [htail], fun directory name number h => ?_⟩
      obtain ⟨tail, htail', -⟩ := hreads h
      rw [htail] at htail'
      cases htail'
    | some tail =>
      have hframe : frame? cs = name? none [] tail := by rw [frame?, hafter]; simp [htail]
      have hnamed {directory name number : List Char} (h : Reads cs directory name number) :
          name ≠ [] ∧ Named tail name number := by
        obtain ⟨tail', htail', hnamed⟩ := hreads h
        rw [htail, Option.some.injEq] at htail'
        exact htail' ▸ hnamed
      rw [hframe]
      rcases name?_cases none [] tail with ⟨name, number, heq, hne, hname, hlongest⟩ | ⟨heq, hnone⟩
      · refine .inl ⟨name, number, heq, exists_reads hafter htail hne hname, ?_⟩
        intro directory' name' number' h
        obtain ⟨hne', hname'⟩ := hnamed h
        obtain ⟨⟨line, htext, -⟩, -⟩ := hname
        obtain ⟨⟨line', htext', -⟩, -⟩ := id hname'
        exact List.prefix_of_prefix_length_le ⟨line', htext'.symm⟩ ⟨line, htext.symm⟩
          (hlongest name' number' hne' hname')
      · refine .inr ⟨heq, fun directory name number h => ?_⟩
        obtain ⟨hne, hname⟩ := hnamed h
        exact hnone name number hne hname

theorem reads_of_frame? {cs name number : List Char} (h : frame? cs = some (name, number)) :
    (∃ directory, Reads cs directory name number) ∧
      ∀ directory' name' number', Reads cs directory' name' number' → name' <+: name := by
  rcases frame?_cases cs with ⟨_, _, heq, hreads, hlongest⟩ | ⟨heq, -⟩
  · rw [h] at heq
    cases heq
    exact ⟨hreads, hlongest⟩
  · rw [h] at heq
    cases heq

theorem Reads.exists_frame? {cs directory name number : List Char} (h : Reads cs directory name number) :
    ∃ found, frame? cs = some found := by
  rcases frame?_cases cs with ⟨name', number', heq, -⟩ | ⟨-, hnone⟩
  · exact ⟨_, heq⟩
  · exact absurd h (hnone directory name number)

/-- A text is a frame in one way. -/
theorem Frame.unique {cs name number name' number' : List Char} (h : Frame cs name number)
    (h' : Frame cs name' number') : name = name' ∧ number = number' := by
  obtain ⟨hquote, directory, h⟩ := h
  obtain ⟨hquote', directory', h'⟩ := h'
  obtain ⟨tail, hafter, htail, -, ⟨line, rfl, hline⟩, -⟩ := h.exists_tail
  obtain ⟨tail', hafter', htail', -, ⟨line', rfl, hline'⟩, -⟩ := h'.exists_tail
  have hsame : name ++ line = name' ++ line' := by
    rw [hafter, Option.some.injEq] at hafter'
    rw [hafter', htail', Option.some.injEq] at htail
    exact htail.symm
  obtain ⟨rest, -, rfl, -⟩ := line?_eq_some_iff.1 hline
  obtain ⟨rest', -, rfl, -⟩ := line?_eq_some_iff.1 hline'
  obtain ⟨hname, hrest⟩ := append_separator_inj hquote hquote' hsame
  refine ⟨hname, ?_⟩
  have hlines : "\", line ".toList ++ (number ++ rest) = "\", line ".toList ++ (number' ++ rest') :=
    congrArg (List.cons '"') hrest
  rw [← hlines, hline] at hline'
  exact Option.some.inj hline'

/-! ### The first frame in a text -/

/-- Of the places up to one where a frame is found the earliest counts. -/
theorem exists_firstFrame? {cs : List Char} {frame : List Char × List Char} (h : frame? cs = some frame)
    (before : List Char) :
    ∃ start rest found, before = start ++ rest ∧ frame? (rest ++ cs) = some found ∧
      firstFrame? (before ++ cs) = some found ∧
      ∀ start' rest', before = start' ++ rest' → frame? (rest' ++ cs) ≠ none → rest' <:+ rest := by
  have here {cs : List Char} {frame : List Char × List Char} (h : frame? cs = some frame) :
      firstFrame? cs = some frame := by
    cases cs with
    | nil => cases h
    | cons c cs => rw [firstFrame?, h]
  induction before with
  | nil =>
    refine ⟨[], [], frame, rfl, h, here h, ?_⟩
    intro start' rest' hbefore _
    obtain ⟨-, rfl⟩ := List.append_eq_nil_iff.1 hbefore.symm
    exact List.suffix_rfl
  | cons c before ih =>
    cases hframe : frame? (c :: (before ++ cs)) with
    | some found =>
      refine ⟨[], c :: before, found, rfl, hframe, here hframe, ?_⟩
      intro start' rest' hbefore _
      exact ⟨start', hbefore.symm⟩
    | none =>
      obtain ⟨start, rest, found, rfl, hfound, hfirst, hearliest⟩ := ih
      refine ⟨c :: start, rest, found, rfl, hfound, ?_, ?_⟩
      · rw [List.cons_append, firstFrame?, hframe]
        exact hfirst
      · rintro (_ | ⟨d, start'⟩) rest' hbefore hne
        · rw [List.nil_append] at hbefore
          rw [← hbefore] at hne
          exact absurd hframe hne
        · rw [List.cons_append, List.cons.injEq] at hbefore
          exact hearliest start' rest' hbefore.2 hne

theorem exists_number?_iff {cs : List Char} :
    (∃ number, number? cs = some number) ↔ ∃ digit rest, cs = digit :: rest ∧ Text.isDigit digit = true := by
  cases cs with
  | nil => simp [number?]
  | cons c cs => by_cases h : Text.isDigit c = true <;> simp [number?, h]

theorem takeWhile_name_iff {cs name : List Char} :
    cs.takeWhile (fun c => c ≠ ':' && c ≠ '/') = name ↔
      ∃ rest, (∀ c ∈ rest.head?, c = ':' ∨ c = '/') ∧ cs = name ++ rest ∧ ':' ∉ name ∧ '/' ∉ name := by
  have hinside : (∀ c ∈ name, (decide (c ≠ ':') && decide (c ≠ '/')) = true) ↔ ':' ∉ name ∧ '/' ∉ name := by
    simp only [Bool.and_eq_true, decide_eq_true_eq]
    constructor
    · intro h
      exact ⟨fun hm => (h _ hm).1 rfl, fun hm => (h _ hm).2 rfl⟩
    · rintro ⟨hcolon, hslash⟩ c hc
      exact ⟨fun he => hcolon (he ▸ hc), fun he => hslash (he ▸ hc)⟩
  have hbehind (c : Char) : (decide (c ≠ ':') && decide (c ≠ '/')) = false ↔ c = ':' ∨ c = '/' := by
    rw [Bool.and_eq_false_iff, decide_eq_false_iff_not, decide_eq_false_iff_not, not_not, not_not]
  rw [takeWhile_eq_iff]
  simp only [hinside, hbehind]

theorem exists_leading?_iff {body : List Char} :
    (∃ place, leading? body = some place) ↔ LeadsWithPlace body := by
  constructor
  · rintro ⟨place, h⟩
    simp only [leading?, Option.bind_eq_bind, Option.bind_eq_some_iff, after?_eq_some_iff] at h
    obtain ⟨cs, rfl, h⟩ := h
    obtain ⟨name, hname⟩ : ∃ name, cs.takeWhile (fun c => c ≠ ':' && c ≠ '/') = name := ⟨_, rfl⟩
    rw [hname] at h
    obtain ⟨rest, -, rfl, hcolon, hslash⟩ := takeWhile_name_iff.1 hname
    rw [List.drop_left] at h
    split at h
    · obtain ⟨number, hnumber, -⟩ := Option.bind_eq_some_iff.1 h
      obtain ⟨digit, behind, rfl, hdigit⟩ := exists_number?_iff.1 ⟨number, hnumber⟩
      exact ⟨name, digit, behind, rfl, hcolon, hslash, hdigit⟩
    · cases h
  · rintro ⟨name, digit, rest, rfl, hcolon, hslash, hdigit⟩
    have hafter := after?_eq_some_iff.2 (Eq.refl ("tests/".toList ++ (name ++ ':' :: digit :: rest)))
    have hname := takeWhile_name_iff.2 ⟨':' :: digit :: rest, by simp, rfl, hcolon, hslash⟩
    obtain ⟨number, hnumber⟩ := exists_number?_iff.2 ⟨digit, rest, rfl, hdigit⟩
    refine ⟨"tests/".toList ++ name ++ ':' :: number, ?_⟩
    simp only [leading?, hafter, Option.bind_eq_bind, Option.bind_some, hname, List.drop_left, hnumber]

theorem leading?_eq_none_iff {body : List Char} : leading? body = none ↔ ¬LeadsWithPlace body := by
  rw [← exists_leading?_iff, Option.eq_none_iff_forall_ne_some, not_exists]

/-! ### The place of a failure -/

variable {body before cs name number : List Char}

/-- What is found is the first frame, or it has a quote in the name. -/
theorem FirstFrame.exists_found (h : FirstFrame body before cs name number) :
    ∃ name' number', firstFrame? body = some (name', number') ∧
      ('"' ∉ name' → name' = name ∧ number' = number) ∧
      ('"' ∈ name' ↔ ∃ start rest, before = start ++ rest ∧ RunsOver (rest ++ cs)) := by
  obtain ⟨-, directory, hreads⟩ := id h.frame
  obtain ⟨found, hfound⟩ := hreads.exists_frame?
  obtain ⟨start, rest, ⟨name', number'⟩, hbefore, hframe, hfirst, hearliest⟩ :=
    exists_firstFrame? hfound before
  obtain ⟨⟨directory', hreads'⟩, hlongest⟩ := reads_of_frame? hframe
  have hhere (hquote : '"' ∉ name') : rest = [] := by
    by_contra hrest
    exact h.first start rest hbefore hrest name' number' ⟨hquote, directory', hreads'⟩
  refine ⟨name', number', by rw [h.body_eq, hfirst], ?_, ?_, ?_⟩
  · intro hquote
    rw [hhere hquote, List.nil_append] at hreads'
    exact Frame.unique ⟨hquote, directory', hreads'⟩ h.frame
  · intro hquote
    exact ⟨start, rest, hbefore, directory', name', number', hquote, hreads'⟩
  · rintro ⟨start', rest', hbefore', directory'', name'', number'', hquote, hover⟩
    by_contra hquote'
    -- what is found is the first frame itself, so the name that runs over is a part of its name
    obtain ⟨found', hfound'⟩ := hover.exists_frame?
    have hrest := hhere hquote'
    have hsuffix := hearliest start' rest' hbefore' (by simp [hfound'])
    rw [hrest, List.suffix_nil] at hsuffix
    rw [hsuffix] at hover
    rw [hrest] at hlongest
    exact hquote' ((hlongest directory'' name'' number'' hover).subset hquote)

theorem quote_not_mem_number {cs directory name number : List Char} (h : Reads cs directory name number) :
    '"' ∉ number := by
  intro hm
  exact absurd (h.number _ hm) (by decide)

/-- When a text does not lead with a place, it is said to have failed at the first frame of a trace in it
exactly when no text that starts there or earlier reads as a frame whose name runs over its closing quote. -/
theorem location_is_first_frame_iff {body : String} {before cs name number : List Char}
    (hlead : ¬LeadsWithPlace body.toList) (h : FirstFrame body.toList before cs name number) :
    ofFailure body = String.ofList (name ++ ':' :: number) ↔
      ∀ start rest, before = start ++ rest → ¬RunsOver (rest ++ cs) := by
  obtain ⟨name', number', hfound, hsame, hover⟩ := h.exists_found
  have hleading : leading? body.toList = none := leading?_eq_none_iff.2 hlead
  have hplace : ofFailure body = String.ofList (name' ++ ':' :: number') := by
    simp only [ofFailure, hleading, hfound]
  have hnone : (∀ start rest, before = start ++ rest → ¬RunsOver (rest ++ cs)) ↔ '"' ∉ name' := by
    rw [hover]
    simp only [not_exists, not_and]
  rw [hplace, hnone]
  constructor
  · intro heq hquote
    obtain ⟨hframe, directory, hreads⟩ := id h.frame
    have hmem : '"' ∈ name ++ ':' :: number :=
      String.ofList_injective heq ▸ List.mem_append_left _ hquote
    simp [hframe, quote_not_mem_number hreads] at hmem
  · intro hquote
    obtain ⟨rfl, rfl⟩ := hsame hquote
    rfl

theorem firstFrame_of_frame {cs name number : List Char} (h : Frame cs name number) :
    FirstFrame cs [] cs name number where
  body_eq := rfl
  frame := h
  first := by
    intro start rest hbefore hrest
    exact absurd (List.append_eq_nil_iff.1 hbefore.symm).2 hrest

/-- Behind a frame, one with a directory does not matter: its slash stops the name. -/
theorem library_frame_is_found :
    let body := "File \"/usr/lib/case.py\", line 59, in run\n  File \"/home/test.py\", line 12"
    ¬LeadsWithPlace body.toList ∧
      FirstFrame body.toList [] body.toList "case.py".toList "59".toList ∧
      ofFailure body = "case.py:59" ∧ ¬RunsOver body.toList := by
  intro body
  have hlead : ¬LeadsWithPlace body.toList := leading?_eq_none_iff.1 (by decide)
  have hframe : Frame body.toList "case.py".toList "59".toList :=
    ⟨by decide, "/usr/lib".toList,
      ⟨", in run\n  File \"/home/test.py\", line 12".toList, by rintro c ⟨⟩; decide, by decide⟩,
      by decide, by decide, by decide, by decide, List.all_eq_true.1 (by decide)⟩
  have hplace : ofFailure body = "case.py:59" := by decide
  have hfirst := firstFrame_of_frame hframe
  exact ⟨hlead, hfirst, hplace, (location_is_first_frame_iff hlead hfirst).1 hplace [] [] rfl⟩

/-- Behind a frame, one without a directory is run into: its line number ends the name, as that of typed code
does. -/
theorem typed_frame_is_run_into :
    let body := "File \"/home/test.py\", line 12, in run\n  File \"<string>\", line 1"
    ¬LeadsWithPlace body.toList ∧
      FirstFrame body.toList [] body.toList "test.py".toList "12".toList ∧
      ofFailure body = "test.py\", line 12, in run\n  File \"<string>:1" ∧ ofFailure body ≠ "test.py:12" := by
  intro body
  have hframe : Frame body.toList "test.py".toList "12".toList :=
    ⟨by decide, "/home".toList,
      ⟨", in run\n  File \"<string>\", line 1".toList, by rintro c ⟨⟩; decide, by decide⟩,
      by decide, by decide, by decide, by decide, List.all_eq_true.1 (by decide)⟩
  exact ⟨leading?_eq_none_iff.1 (by decide), firstFrame_of_frame hframe, by decide, by decide⟩

end Proctor.Location
