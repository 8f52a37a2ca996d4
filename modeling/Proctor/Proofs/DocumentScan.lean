import Proctor.Proofs.DocumentText

/-!
A scan of a written document gives the markup of its tree.

Main statement: `scan_document`.
-/

namespace Proctor.Xml

namespace Markup

/-- The next markup is text, or there is none: text ends here. -/
def EndsText (rest : List Char) : Prop :=
  ∀ c ∈ rest.head?, c = '<'

/-- The characters are scanned to the markup in front of `rest`, which leaves other elements open. What
is left of the fuel is enough for `rest`. -/
structure Scans (opened : List (List Char)) (cs : List Char) (ms : List Markup)
    (opened' : List (List Char)) (rest : List Char) : Prop where
  onto : ∀ read fuel, (cs ++ rest).length ≤ fuel → ∃ fuel', rest.length ≤ fuel' ∧
    scanFrom read opened fuel (cs ++ rest) = scanFrom (ms.reverse ++ read) opened' fuel' rest

namespace Scans

variable {opened opened' opened'' : List (List Char)} {cs cs' rest : List Char} {ms ms' : List Markup}

theorem nil : Scans opened [] [] opened rest where
  onto _ fuel h := ⟨fuel, h, rfl⟩

/-- Characters scanned one after the other are scanned together. -/
theorem append (h : Scans opened cs ms opened' (cs' ++ rest))
    (h' : Scans opened' cs' ms' opened'' rest) : Scans opened (cs ++ cs') (ms ++ ms') opened'' rest where
  onto read fuel hfuel := by
    rw [List.append_assoc] at hfuel ⊢
    obtain ⟨fuel', hfuel', honto⟩ := h.onto read fuel hfuel
    obtain ⟨fuel'', hfuel'', honto'⟩ := h'.onto (ms.reverse ++ read) fuel' hfuel'
    refine ⟨fuel'', hfuel'', ?_⟩
    rw [honto, honto', List.reverse_append, List.append_assoc]

/-- One piece of markup is scanned by one step, whatever was read before it. -/
theorem step (hne : cs ≠ []) (h : next opened (cs ++ rest) = .ok (ms, opened', rest)) :
    Scans opened cs ms opened' rest where
  onto read fuel hfuel := by
    obtain ⟨c, cs, rfl⟩ := List.exists_cons_of_ne_nil hne
    simp only [List.cons_append, List.length_cons, List.length_append] at hfuel
    obtain ⟨fuel, rfl⟩ : ∃ n, fuel = n + 1 := ⟨fuel - 1, by omega⟩
    refine ⟨fuel, by omega, ?_⟩
    rw [List.cons_append] at h ⊢
    rw [scanFrom, h]
    nofun

end Scans

variable {opened : List (List Char)} {rest : List Char}

/-- Text is scanned up to the next markup. -/
theorem scans_text {cs : List Char} (hcs : ∀ c ∈ cs, c ≠ '<') (hrest : EndsText rest) :
    Scans opened cs (textMarkup cs) opened rest := by
  rw [textMarkup]
  split
  case isTrue h =>
    subst h
    exact .nil
  case isFalse h =>
    apply Scans.step h
    have hspan : (cs ++ rest).span (· ≠ '<') = (cs, rest) :=
      span_append (by simpa using hcs) (by simpa [EndsText] using hrest)
    obtain ⟨c, cs, rfl⟩ := List.exists_cons_of_ne_nil h
    have hc : c ≠ '<' := hcs c (.head _)
    rw [List.cons_append] at hspan ⊢
    rw [next, hspan]
    simpa using hc

/-! #### Tags -/

/-- The characters stay within a tag, outside quotes before and after them. -/
def StaysInTag (cs : List Char) : Prop :=
  ∀ read rest, tagContent? none read (cs ++ rest) = tagContent? none (cs.reverse ++ read) rest

theorem StaysInTag.append {cs cs' : List Char} (h : StaysInTag cs) (h' : StaysInTag cs') :
    StaysInTag (cs ++ cs') := by
  intro read rest
  rw [List.append_assoc, h, h', List.reverse_append, List.append_assoc]

/-- Characters that neither close a tag nor open a quote stay within it. -/
theorem staysInTag_plain (cs : List Char) (h : ∀ c ∈ cs, c ≠ '>' ∧ c ≠ '"' ∧ c ≠ '\'') :
    StaysInTag cs := by
  induction cs with
  | nil => exact fun _ _ => rfl
  | cons c cs ih =>
    intro read rest
    obtain ⟨hclose, hdouble, hsingle⟩ := h c (.head _)
    rw [List.cons_append, tagContent?, if_neg hclose, if_neg (by simp [hdouble, hsingle]),
      ih fun c hc => h c (.tail _ hc), List.reverse_cons, List.append_assoc]
    rfl

theorem tagContent?_quoted {q : Char} {cs : List Char} (h : q ∉ cs) (read rest : List Char) :
    tagContent? (some q) read (cs ++ q :: rest) = tagContent? none (q :: cs.reverse ++ read) rest := by
  induction cs generalizing read with
  | nil => simp [tagContent?]
  | cons c cs ih =>
    obtain ⟨hc, hcs⟩ : q ≠ c ∧ q ∉ cs := by simpa using h
    rw [List.cons_append, tagContent?, if_neg (Ne.symm hc), ih hcs, List.reverse_cons]
    simp

/-- A quoted value stays within its tag, angle brackets and all. -/
theorem staysInTag_quoted {q : Char} {cs : List Char} (hq : q = '"' ∨ q = '\'') (h : q ∉ cs) :
    StaysInTag (q :: cs ++ [q]) := by
  intro read rest
  have hclose : q ≠ '>' := by rcases hq with rfl | rfl <;> decide
  rw [List.append_assoc, List.cons_append, tagContent?, if_neg hclose, if_pos hq,
    List.singleton_append, tagContent?_quoted h]
  simp

end Markup

theorem Blanks.staysInTag (b : Blanks) : Markup.StaysInTag b.1 := by
  apply Markup.staysInTag_plain
  intro c hc
  have h := b.2 c hc
  simp only [isBlank, Bool.or_eq_true, decide_eq_true_eq] at h
  rcases h with ((rfl | rfl) | rfl) | rfl <;> decide

theorem Name.staysInTag (n : Name) : Markup.StaysInTag n.1 := by
  apply Markup.staysInTag_plain
  intro c hc
  have h := n.2.2 c hc
  simp only [breaksName, Bool.or_eq_false_iff, decide_eq_false_iff_not, List.mem_cons, not_or] at h
  exact ⟨h.2.2.1, h.2.2.2.2.2.1, h.2.2.2.2.2.2.1⟩

theorem Markup.staysInTag_flatMap {α : Type} {f : α → List Char} {l : List α}
    (h : ∀ a ∈ l, StaysInTag (f a)) : StaysInTag (l.flatMap f) := by
  induction l with
  | nil => exact fun _ _ => rfl
  | cons a l ih =>
    rw [List.flatMap_cons]
    exact (h a (.head _)).append (ih fun b hb => h b (.tail _ hb))

theorem WrittenAttribute.staysInTag (a : WrittenAttribute) : Markup.StaysInTag a.chars := by
  have hequals : Markup.StaysInTag ['='] := Markup.staysInTag_plain _ (by simp)
  have hvalue := Markup.staysInTag_quoted a.isQuote a.quote_not_mem
  rw [chars, List.append_assoc]
  exact (((a.gap.staysInTag.append a.name.staysInTag).append a.before.staysInTag).append
    (hequals.append a.after.staysInTag)).append hvalue

namespace StartTag

theorem staysInTag (t : StartTag) : Markup.StaysInTag (t.name.1 ++ t.tail) :=
  t.name.staysInTag.append
    ((Markup.staysInTag_flatMap fun a _ => a.staysInTag).append t.trail.staysInTag)

/-- What follows the name of a tag starts with a blank, if there is anything. -/
theorem isBlank_of_mem_head?_tail (t : StartTag) : ∀ c ∈ t.tail.head?, isBlank c = true := by
  intro c hc
  cases hattributes : t.attributes with
  | nil =>
    rw [tail, hattributes] at hc
    exact t.trail.2 c (List.mem_of_mem_head? hc)
  | cons a more =>
    obtain ⟨b, blanks, hgap⟩ := List.exists_cons_of_ne_nil a.gap_ne_nil
    obtain rfl : b = c := by simpa [tail, hattributes, WrittenAttribute.chars, hgap] using hc
    exact a.gap.2 b (hgap ▸ .head _)

/-- The name of a tag ends at its first blank. -/
theorem span_eq (t : StartTag) : (t.name.1 ++ t.tail).span (!isBlank ·) = (t.name.1, t.tail) := by
  have hname : ∀ c ∈ t.name.1, (!isBlank c) = true := fun c hc => by
    rw [t.name.isBlank_eq_false c hc]
    rfl
  apply span_append hname
  intro c hc
  rw [t.isBlank_of_mem_head?_tail c hc]
  rfl

/-- No start tag reads as one that is closed at once. -/
theorem getLast?_ne_slash (t : StartTag) : (t.name.1 ++ t.tail).getLast? ≠ some '/' := by
  have append {cs cs' : List Char} (h : cs.getLast? ≠ some '/') (h' : cs'.getLast? ≠ some '/') :
      (cs ++ cs').getLast? ≠ some '/' := by
    rw [List.getLast?_append]
    cases hlast : cs'.getLast? with
    | none => exact h
    | some c => rwa [hlast] at h'
  have blanks (b : Blanks) : b.1.getLast? ≠ some '/' := fun h =>
    absurd (b.2 _ (List.mem_of_mem_getLast? h)) (by decide)
  refine append (fun h => absurd (t.name.2.2 _ (List.mem_of_mem_getLast? h)) (by decide))
    (append ?_ (blanks t.trail))
  induction t.attributes with
  | nil => nofun
  | cons a more ih =>
    refine append ?_ ih
    rw [WrittenAttribute.chars, List.getLast?_concat]
    rcases a.isQuote with h | h <;> rw [h] <;> decide

end StartTag

namespace Markup

variable {opened : List (List Char)} {rest : List Char}

theorem next_angle {c : Char} {cs : List Char} (hc : breaksName c = false) :
    next opened ('<' :: c :: cs) = opening opened (c :: cs) := by
  have hne : c ≠ '!' ∧ c ≠ '/' ∧ c ≠ '?' := by
    refine ⟨?_, ?_, ?_⟩ <;> rintro rfl <;> cases hc
  rw [next, afterAngle]
  · nofun
  · exact fun _ h => hne.1 (List.cons.inj h).1
  · exact fun _ h => hne.2.1 (List.cons.inj h).1
  · exact fun _ h => hne.2.2 (List.cons.inj h).1

/-- A start tag opens its element. -/
theorem scans_start (t : StartTag) :
    Scans opened ('<' :: t.name.1 ++ t.tail ++ ['>']) [.start t.toTag] (t.name.1 :: opened) rest := by
  apply Scans.step (by simp)
  obtain ⟨c, cs, hname, hc⟩ := t.name.eq_cons
  have hcontent : tagContent? none [] (t.name.1 ++ t.tail ++ '>' :: rest) =
      some (t.name.1 ++ t.tail, rest) := by
    rw [t.staysInTag, tagContent?, if_pos rfl, List.append_nil, List.reverse_reverse]
  have hopening : opening opened (t.name.1 ++ t.tail ++ '>' :: rest) =
      .ok ([.start t.toTag], t.name.1 :: opened, rest) := by
    simp only [opening, hcontent, if_neg t.getLast?_ne_slash, t.span_eq]
    rfl
  rw [← hopening]
  simp only [hname, List.cons_append, List.append_assoc, List.nil_append, next_angle hc]

/-- A tag that is closed at once opens nothing. -/
theorem scans_short (t : StartTag) :
    Scans opened ('<' :: t.name.1 ++ t.tail ++ "/>".toList) [.start t.toTag, .finish t.name.1] opened
      rest := by
  apply Scans.step (by simp)
  obtain ⟨c, cs, hname, hc⟩ := t.name.eq_cons
  have hcontent : tagContent? none [] (t.name.1 ++ t.tail ++ ['/'] ++ '>' :: rest) =
      some (t.name.1 ++ t.tail ++ ['/'], rest) := by
    have hstays := t.staysInTag.append (staysInTag_plain ['/'] (by simp))
    rw [hstays, tagContent?, if_pos rfl, List.append_nil, List.reverse_reverse]
  have hopening : opening opened (t.name.1 ++ t.tail ++ ['/'] ++ '>' :: rest) =
      .ok ([.start t.toTag, .finish t.name.1], opened, rest) := by
    simp only [opening, hcontent, List.getLast?_concat, if_true, List.dropLast_concat, t.span_eq]
    rfl
  rw [← hopening]
  simp only [hname, List.cons_append, List.append_assoc, List.nil_append,
    next_angle hc]
  rfl

theorem endName_append (n : Name) (b : Blanks) : endName (n.1 ++ b.1) = n.1 := by
  have hblanks : ∀ c ∈ b.1.reverse, isBlank c = true := by simpa using b.2
  have hname : n.1.reverse.dropWhile isBlank = n.1.reverse := by
    rw [List.dropWhile_eq_self_iff]
    intro h
    rw [n.isBlank_eq_false _ (List.mem_reverse.1 (List.getElem_mem h))]
    nofun
  have hne : n.1.reverse ≠ [] := by simpa using n.2.1
  rw [endName, List.reverse_append, List.dropWhile_append_of_pos hblanks, hname]
  split
  case h_1 h => exact absurd h hne
  case h_2 => exact List.reverse_reverse _

/-- An end tag closes the element that was opened last. -/
theorem scans_finish (opened : List (List Char)) (n : Name) (b : Blanks) :
    Scans (n.1 :: opened) ('<' :: '/' :: n.1 ++ b.1 ++ ['>']) [.finish n.1] opened rest := by
  apply Scans.step (by simp)
  have hcontent : tagContent? none [] ('/' :: (n.1 ++ b.1) ++ '>' :: rest) =
      some ('/' :: (n.1 ++ b.1), rest) := by
    have hstays : StaysInTag ('/' :: (n.1 ++ b.1)) :=
      (staysInTag_plain ['/'] (by simp)).append (n.staysInTag.append b.staysInTag)
    rw [hstays, tagContent?, if_pos rfl, List.append_nil, List.reverse_reverse]
  have hclosing : closing (n.1 :: opened) ('/' :: (n.1 ++ b.1) ++ '>' :: rest) =
      .ok ([.finish n.1], opened, rest) := by
    rw [closing, hcontent]
    simp [endName_append]
  rw [← hclosing]
  simp only [List.append_assoc, List.cons_append]
  rfl

end Markup

/-! #### Other markup -/

namespace Markup

variable {opened : List (List Char)} {rest : List Char}

theorem not_infix_tail {cs end_ : List Char} {c : Char} (h : ¬end_ <:+: c :: cs) : ¬end_ <:+: cs :=
  fun h' => h (h'.trans (List.suffix_cons c cs).isInfix)

theorem commentContent?_cons {size : Nat} {c : Char} {read : List Char}
    (h : c = '>' → ['-', '-'] <+: read → size ≤ 4) (rest : List Char) :
    commentContent? size read (c :: rest) = commentContent? (size + c.utf8Size) (c :: read) rest := by
  rw [commentContent?.eq_def]
  dsimp only
  split
  case h_1 read =>
    have hsize := h rfl ⟨read, rfl⟩
    rw [if_neg (by omega)]
    rfl
  case h_2 => rfl

/-- A comment of which `p` is the character read last does not end before its text does. -/
theorem commentContent?_eq {size : Nat} {p : Char} {read cs : List Char}
    (h : ¬['-', '-'] <:+: p :: cs ++ ['-']) (hsize : 3 ≤ size)
    (hopen : p = '-' → ['-'] <+: read → size ≤ 4) (rest : List Char) :
    commentContent? size (p :: read) (cs ++ "-->".toList ++ rest) =
      some ((p :: read).reverse ++ cs ++ "--".toList, rest) := by
  induction cs generalizing size p read with
  | nil =>
    change commentContent? size (p :: read) ('-' :: '-' :: '>' :: rest) = _
    rw [commentContent?_cons (c := '-') nofun, commentContent?_cons (c := '-') nofun, commentContent?,
      if_pos (by have : '-'.utf8Size = 1 := rfl; omega)]
    simp
  | cons c cs ih =>
    have hnext : c = '-' → ['-'] <+: p :: read → size + c.utf8Size ≤ 4 := by
      rintro rfl ⟨_, hp⟩
      obtain rfl : '-' = p := (List.cons.inj hp).1
      exact absurd ⟨[], cs ++ ['-'], rfl⟩ h
    have hstays : c = '>' → ['-', '-'] <+: p :: read → size ≤ 4 := by
      rintro - ⟨read', hread⟩
      obtain ⟨rfl, rfl⟩ := List.cons.inj hread
      exact hopen rfl ⟨read', rfl⟩
    rw [List.cons_append, List.cons_append, commentContent?_cons hstays,
      ih (not_infix_tail h) (by omega) hnext]
    simp

theorem instructionContent?_cons {c : Char} {read : List Char} (h : c = '>' → ¬['?'] <+: read)
    (rest : List Char) :
    instructionContent? read (c :: rest) = instructionContent? (c :: read) rest := by
  rw [instructionContent?.eq_def]
  dsimp only
  split
  case h_1 read => exact absurd ⟨read, rfl⟩ (h rfl)
  case h_2 => rfl

/-- An instruction ends at the first end that its text cannot hold. -/
theorem instructionContent?_eq {p : Char} {read cs : List Char} (h : ¬['?', '>'] <:+: p :: cs)
    (rest : List Char) :
    instructionContent? (p :: read) (cs ++ "?>".toList ++ rest) =
      some ((p :: read).reverse ++ cs ++ ['?'], rest) := by
  induction cs generalizing p read with
  | nil =>
    change instructionContent? (p :: read) ('?' :: '>' :: rest) = _
    rw [instructionContent?_cons (c := '?') nofun, instructionContent?]
    simp
  | cons c cs ih =>
    have hstays : c = '>' → ¬['?'] <+: p :: read := by
      rintro rfl ⟨_, hp⟩
      obtain rfl : '?' = p := (List.cons.inj hp).1
      exact h ⟨[], cs, rfl⟩
    rw [List.cons_append, List.cons_append, instructionContent?_cons hstays, ih (not_infix_tail h)]
    simp

theorem cdataContent?_cons {c : Char} {read : List Char} (h : c = '>' → ¬[']', ']'] <+: read)
    (rest : List Char) : cdataContent? read (c :: rest) = cdataContent? (c :: read) rest := by
  rw [cdataContent?.eq_def]
  dsimp only
  split
  case h_1 read => exact absurd ⟨read, rfl⟩ (h rfl)
  case h_2 => rfl

/-- A character section ends at the first end that its text cannot hold. -/
theorem cdataContent?_eq {p q : Char} {read cs : List Char} (h : ¬[']', ']', '>'] <:+: p :: q :: cs)
    (rest : List Char) :
    cdataContent? (q :: p :: read) (cs ++ "]]>".toList ++ rest) =
      some ((q :: p :: read).reverse ++ cs ++ "]]".toList, rest) := by
  induction cs generalizing p q read with
  | nil =>
    change cdataContent? (q :: p :: read) (']' :: ']' :: '>' :: rest) = _
    rw [cdataContent?_cons (c := ']') nofun, cdataContent?_cons (c := ']') nofun, cdataContent?]
    simp
  | cons c cs ih =>
    have hstays : c = '>' → ¬[']', ']'] <+: q :: p :: read := by
      rintro rfl ⟨_, hread⟩
      obtain ⟨rfl, hp⟩ := List.cons.inj hread
      obtain rfl : ']' = p := (List.cons.inj hp).1
      exact h ⟨[], cs, rfl⟩
    rw [List.cons_append, List.cons_append, cdataContent?_cons hstays, ih (not_infix_tail h)]
    simp

/-- A document type ends where its angle brackets balance. -/
theorem doctypeContent?_eq {depth : Nat} {read cs : List Char} (h : balances depth cs = true)
    (rest : List Char) :
    doctypeContent? depth read (cs ++ '>' :: rest) = some (read.reverse ++ cs, rest) := by
  fun_induction balances depth cs generalizing read
  all_goals simp_all [doctypeContent?]

theorem next_bang {cs : List Char} {step : Step} (h : bang opened ('!' :: cs) = step) :
    next opened ('<' :: '!' :: cs) = step :=
  h

/-- A comment is passed over if its text neither holds two hyphens nor ends with one. -/
theorem scans_comment {cs : List Char} (h : ¬['-', '-'] <:+: cs ++ ['-']) :
    Scans opened ('<' :: "!--".toList ++ cs ++ "-->".toList) [.passed] opened rest := by
  have hcontent : commentContent? 0 [] ('!' :: '-' :: '-' :: (cs ++ "-->".toList ++ rest)) =
      some ('!' :: '-' :: '-' :: cs ++ "--".toList, rest) := by
    change commentContent? 3 ['-', '-', '!'] (cs ++ "-->".toList ++ rest) = _
    cases cs with
    | nil => rfl
    | cons c cs =>
      rw [List.cons_append, List.cons_append, commentContent?_cons (by simp)]
      refine commentContent?_eq h (by omega) ?_ rest
      rintro rfl -
      decide
  apply Scans.step (by simp)
  apply next_bang
  change bang opened ('!' :: '-' :: '-' :: (cs ++ "-->".toList ++ rest)) = _
  rw [bang, hcontent]
  rfl

theorem scans_instruction {cs : List Char} (h : ¬['?', '>'] <:+: '?' :: cs) :
    Scans opened ('<' :: '?' :: cs ++ "?>".toList) [.passed] opened rest := by
  have hcontent : instructionContent? [] ('?' :: (cs ++ "?>".toList ++ rest)) =
      some ('?' :: cs ++ ['?'], rest) := by
    rw [instructionContent?_cons (c := '?') nofun, instructionContent?_eq h]
    rfl
  apply Scans.step (by simp)
  change afterAngle opened ('?' :: (cs ++ "?>".toList ++ rest)) = _
  rw [afterAngle, hcontent]
  simp

theorem scans_aside (a : Aside) : Scans opened a.chars [.passed] opened rest :=
  match a with
  | .comment _ h => scans_comment h
  | .instruction _ h => scans_instruction h

/-- A character section is scanned to its text as it stands. -/
theorem scans_cdata {cs : List Char} (h : ¬[']', ']', '>'] <:+: cs) :
    Scans opened ('<' :: "![CDATA[".toList ++ cs ++ "]]>".toList) [.cdata cs] opened rest := by
  have hinside : ¬[']', ']', '>'] <:+: 'A' :: '[' :: cs := by
    intro h'
    rcases List.infix_cons_iff.1 h' with h' | h'
    · exact absurd (List.cons_prefix_cons.1 h').1 (by decide)
    rcases List.infix_cons_iff.1 h' with h' | h'
    · exact absurd (List.cons_prefix_cons.1 h').1 (by decide)
    · exact h h'
  have hcontent : cdataContent? [] ("![CDATA[".toList ++ (cs ++ "]]>".toList ++ rest)) =
      some ("![CDATA[".toList ++ (cs ++ "]]".toList), rest) := by
    have hlead {lead read : List Char} (hlead : '>' ∉ lead) (rest : List Char) :
        cdataContent? read (lead ++ rest) = cdataContent? (lead.reverse ++ read) rest := by
      induction lead generalizing read with
      | nil => rfl
      | cons c lead ih =>
        obtain ⟨hc, hlead⟩ : '>' ≠ c ∧ '>' ∉ lead := by simpa using hlead
        rw [List.cons_append, cdataContent?_cons fun h => absurd h.symm hc, ih hlead]
        simp
    rw [hlead (by decide)]
    exact cdataContent?_eq hinside rest
  have hlength : (cs ++ "]]".toList).length - 2 = cs.length := by simp
  have hafter : after? "![CDATA[".toList ("![CDATA[".toList ++ (cs ++ "]]".toList)) =
      some (cs ++ "]]".toList) := by simp [after?]
  apply Scans.step (by simp)
  apply next_bang
  change bang opened ('!' :: '[' :: ("CDATA[".toList ++ (cs ++ "]]>".toList ++ rest))) = _
  change cdataContent? [] ('!' :: '[' :: ("CDATA[".toList ++ (cs ++ "]]>".toList ++ rest))) = _ at hcontent
  rw [bang, hcontent]
  dsimp only
  rw [hafter]
  dsimp only
  rw [hlength, List.take_left]

theorem scans_insert (i : Insert) : Scans opened i.chars [i.markup] opened rest :=
  match i with
  | .aside a => scans_aside a
  | .cdata _ h => scans_cdata h

theorem scans_doctype {cs : List Char} (hne : cs.all isBlank = false) (h : balances 0 cs = true) :
    Scans opened ('<' :: "!DOCTYPE".toList ++ cs ++ ['>']) [.doctype] opened rest := by
  have hcontent : doctypeContent? 0 [] ("!DOCTYPE".toList ++ cs ++ '>' :: rest) =
      some ("!DOCTYPE".toList ++ cs, rest) :=
    doctypeContent?_eq (by simpa [balances] using h) rest
  have hword : (("!DOCTYPE".toList ++ cs).take 8).map Char.toUpper = "!DOCTYPE".toList := by
    simp
  have hname : (("!DOCTYPE".toList ++ cs).drop 8).all isBlank = false := by simpa using hne
  apply Scans.step (by simp)
  rw [List.append_assoc]
  apply next_bang
  change doctypeContent? 0 [] ('!' :: 'D' :: ("OCTYPE".toList ++ (cs ++ '>' :: rest))) = _ at hcontent
  change bang opened ('!' :: 'D' :: ("OCTYPE".toList ++ (cs ++ '>' :: rest))) = _
  rw [bang, if_pos (.inl rfl), hcontent]
  · dsimp only
    rw [if_pos hword, hname]
    rfl
  · nofun
  · nofun

theorem scans_heading (h : Heading) : Scans opened h.chars [h.markup] opened rest :=
  match h with
  | .aside a => scans_aside a
  | .doctype _ hne h => scans_doctype hne h

end Markup

/-! #### Content and documents -/

namespace Markup

variable {opened : List (List Char)} {rest : List Char}

theorem endsText_append {cs : List Char} (h : cs.head? = some '<') : EndsText (cs ++ rest) := by
  intro c hc
  rw [List.head?_append, h] at hc
  exact (Option.some.inj hc).symm

theorem head?_insert (i : Insert) : i.chars.head? = some '<' := by
  rcases i with (_ | _) | _ <;> rfl

theorem head?_heading (h : Heading) : h.chars.head? = some '<' := by
  rcases h with (_ | _) | _ <;> rfl

theorem head?_element (tag : StartTag) (close : Close) (isEmpty : Bool) (inner : List Char) :
    (elementChars tag close isEmpty inner).head? = some '<' :=
  rfl

/-- Pieces of text, each behind markup of another kind. -/
theorem scans_pieces (opened : List (List Char)) {α β : Type} {chars : α → List Char}
    {markup : α → Markup} {text : β → List Char}
    (hhead : ∀ a, (chars a).head? = some '<')
    (hscans : ∀ a rest, Scans opened (chars a) [markup a] opened rest)
    (htext : ∀ b, ∀ c ∈ text b, c ≠ '<') (pieces : List (α × β)) (hrest : EndsText rest) :
    EndsText (pieces.flatMap (fun (a, b) => chars a ++ text b) ++ rest) ∧
      Scans opened (pieces.flatMap fun (a, b) => chars a ++ text b)
        (pieces.flatMap fun (a, b) => markup a :: textMarkup (text b)) opened rest := by
  induction pieces with
  | nil => exact ⟨hrest, .nil⟩
  | cons piece pieces ih =>
    obtain ⟨a, b⟩ := piece
    refine ⟨?_, ((hscans a _).append (scans_text (htext b) ih.1)).append ih.2⟩
    rw [List.flatMap_cons, List.append_assoc, List.append_assoc]
    exact endsText_append (hhead a)

theorem scans_run (r : Run) (hrest : EndsText rest) : Scans opened r.chars r.markup opened rest := by
  have hmore := scans_pieces opened head?_insert (fun i _ => scans_insert i) Glyph.ne_angle_of_mem r.more
    hrest
  exact (scans_text (Glyph.ne_angle_of_mem _) hmore.1).append hmore.2

theorem scans_prolog (p : Prolog) (hrest : EndsText rest) :
    Scans opened p.chars p.markup opened rest := by
  have hblanks (b : Blanks) : ∀ c ∈ b.1, c ≠ '<' := by
    rintro c hc rfl
    exact absurd (b.2 _ hc) (by decide)
  have hmore := scans_pieces opened head?_heading (fun h _ => scans_heading h) hblanks p.more
    hrest
  exact (scans_text (hblanks p.first) hmore.1).append hmore.2

end Markup

theorem Run.markup_eq_nil {r : Run} (h : r.isEmpty = true) : r.markup = [] := by
  obtain ⟨first, more⟩ := r
  obtain ⟨rfl, rfl⟩ : first = [] ∧ more = [] := by simpa [isEmpty] using h
  rfl

theorem Content.markup_eq_nil {c : Content} (h : c.isEmpty = true) : c.markup = [] := by
  cases c with
  | last run => exact Run.markup_eq_nil h
  | element => cases h

namespace Markup

variable {opened : List (List Char)} {rest : List Char}

/-- An element is scanned to its tags and what is between them, also in its short form. -/
theorem scans_element (opened : List (List Char)) (tag : StartTag) (close : Close) {inner : Content}
    (h : ∀ {opened rest}, EndsText rest → Scans opened inner.chars inner.markup opened rest) :
    Scans opened (elementChars tag close inner.isEmpty inner.chars)
      (.start tag.toTag :: inner.markup ++ [.finish tag.name.1]) opened rest := by
  rw [elementChars]
  split
  case isTrue hshort =>
    rw [Content.markup_eq_nil (Bool.and_eq_true_iff.1 hshort).1]
    exact scans_short tag
  case isFalse hlong =>
    have hends : EndsText ('<' :: '/' :: tag.name.1 ++ close.gap.1 ++ ['>'] ++ rest) :=
      endsText_append rfl
    have hlast := (h hends).append (scans_finish opened tag.name close.gap)
    simpa using (scans_start tag).append hlast

/-- Content of any depth is scanned to its markup, by induction over its tree. -/
theorem scans_content (c : Content) (hrest : EndsText rest) :
    Scans opened c.chars c.markup opened rest := by
  induction c generalizing opened rest with
  | last run => exact scans_run run hrest
  | element run tag inner close rest' ihinner ihrest =>
    have hends : EndsText (elementChars tag close inner.isEmpty inner.chars ++ rest'.chars ++ rest) := by
      rw [List.append_assoc]
      exact endsText_append (head?_element ..)
    have hbehind := (scans_element opened tag close ihinner).append (ihrest hrest)
    simpa [Content.chars, Content.markup] using (scans_run run hends).append hbehind

/-- What is scanned later stands behind what was scanned before. -/
theorem exists_scanFrom (read : List Markup) (opened : List (List Char)) (fuel : Nat)
    (input : List Char) : ∃ more fault, scanFrom read opened fuel input = ⟨read.reverse ++ more, fault⟩ := by
  induction fuel generalizing read opened input with
  | zero => cases input <;> exact ⟨[], none, by simp [scanFrom]⟩
  | succ fuel ih =>
    cases input with
    | nil => exact ⟨[], none, by simp [scanFrom]⟩
    | cons c cs =>
      cases hnext : next opened (c :: cs) with
      | error fault => exact ⟨[], some fault, by simp [scanFrom, hnext]⟩
      | ok found =>
        obtain ⟨ms, opened', rest⟩ := found
        obtain ⟨more, fault, h⟩ := ih (ms.reverse ++ read) opened' rest
        exact ⟨ms ++ more, fault, by simp [scanFrom, hnext, h]⟩

end Markup

/-- A byte order mark is dropped, and nothing else. -/
theorem withoutMark_chars (d : Document) :
    withoutMark d.chars = d.prolog.chars ++ d.root.chars ++ d.epilog := by
  rw [Document.chars]
  split
  case isTrue => rfl
  case isFalse =>
    -- a document starts with a blank or an angle bracket
    have hfirst : ∀ c ∈ (d.prolog.chars ++ d.root.chars ++ d.epilog).head?, c ≠ '\uFEFF' := by
      obtain ⟨_, ⟨blanks, hblanks⟩, more⟩ := d.prolog
      cases blanks with
      | cons b blanks =>
        rintro c ⟨⟩ rfl
        exact absurd (hblanks _ (.head _)) (by decide)
      | nil =>
        cases more with
        | cons piece more =>
          have hhead : ∀ rest, ((piece.1.chars ++ rest : List Char)).head? = some '<' := by
            intro rest
            rw [List.head?_append, Markup.head?_heading]
            rfl
          intro c hc
          simp only [Prolog.chars, List.flatMap_cons, List.nil_append, List.append_assoc, hhead] at hc
          obtain rfl := Option.some.inj hc
          decide
        | nil =>
          rintro c ⟨⟩
          decide
    rw [List.nil_append, withoutMark]
    rintro rest h
    rw [h] at hfirst
    exact hfirst _ rfl rfl

/-- The scan of a document starts with the markup of its tree. -/
theorem scan_document (d : Document) : ∃ more fault, scan d.text.toList =
    ⟨d.prolog.markup ++ .start d.root.tag.toTag :: (d.root.behindStart ++ more), fault⟩ := by
  have hroot : Markup.EndsText (d.root.chars ++ d.epilog) :=
    Markup.endsText_append (Markup.head?_element ..)
  let ms := d.prolog.markup ++ (.start d.root.tag.toTag :: d.root.behindStart)
  have hscans : Markup.Scans [] (d.prolog.chars ++ d.root.chars) ms [] d.epilog :=
    (Markup.scans_prolog d.prolog hroot).append
      (Markup.scans_element [] d.root.tag d.root.close (Markup.scans_content d.root.inner))
  obtain ⟨fuel, -, honto⟩ := hscans.onto [] _ (Nat.le_refl _)
  obtain ⟨more, fault, hmore⟩ := Markup.exists_scanFrom (ms.reverse ++ []) [] fuel d.epilog
  refine ⟨more, fault, ?_⟩
  rw [Document.text, String.toList_ofList, scan, withoutMark_chars]
  rw [honto, hmore]
  simp [ms]

end Proctor.Xml
