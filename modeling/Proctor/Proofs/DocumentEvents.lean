import Mathlib.Data.List.Induction
import Proctor.Proofs.DocumentText
import Proctor.Xml.Event

/-!
What a reader gets from the markup of a written document: from a run of text one text or none, and an
element passed over whole.

Main statements: `text_cases`, `exists_skipElement`.
-/

namespace Proctor.Xml

/-! ### Glyphs without blanks around them -/

namespace Writes

variable {written : List Char} {c : Char}

/-- A character written in full has no blank at its ends, unless it is one. -/
theorem blank_or (h : Writes written c) :
    (∃ b, written = [b] ∧ isBlank b = true) ∨
      (∃ b more, written = b :: more ∧ isBlank b = false) ∧
        ∃ b more, written = more ++ [b] ∧ isBlank b = false := by
  rcases h.eq_self_or with ⟨rfl, -⟩ | ⟨body, rfl, -⟩
  · cases hc : isBlank c with
    | true => exact .inl ⟨c, rfl, hc⟩
    | false => exact .inr ⟨⟨c, [], rfl, hc⟩, c, [], rfl, hc⟩
  · exact .inr ⟨⟨'&', body ++ [';'], rfl, rfl⟩, ';', '&' :: body, rfl, rfl⟩

end Writes

namespace Glyph

theorem chars_append (gs gs' : List Glyph) : chars (gs ++ gs') = chars gs ++ chars gs' :=
  List.flatMap_append ..

/-- What is left of glyphs without the blanks at their start are glyphs. -/
theorem exists_trimStart (gs : List Glyph) : ∃ gs', Reader.trimStart (chars gs) = chars gs' := by
  induction gs with
  | nil => exact ⟨[], rfl⟩
  | cons g gs ih =>
    rcases g.writes.blank_or with ⟨b, hb, hblank⟩ | ⟨⟨b, more, hb, hblank⟩, -⟩
    · obtain ⟨gs', h⟩ := ih
      refine ⟨gs', ?_⟩
      rw [← h, chars_cons, hb]
      simp [Reader.trimStart, hblank]
    · refine ⟨g :: gs, ?_⟩
      rw [chars_cons, hb]
      simp [Reader.trimStart, hblank]

/-- What is left of glyphs without the blanks at their end are glyphs. -/
theorem exists_trimEnd (gs : List Glyph) : ∃ gs', Reader.trimEnd (chars gs) = chars gs' := by
  induction gs using List.reverseRecOn with
  | nil => exact ⟨[], rfl⟩
  | append_singleton gs g ih =>
    have hchars : chars (gs ++ [g]) = chars gs ++ g.written := by
      rw [chars_append, chars_cons]
      exact congrArg (_ ++ ·) (List.append_nil _)
    rcases g.writes.blank_or with ⟨b, hb, hblank⟩ | ⟨-, b, more, hb, hblank⟩
    · obtain ⟨gs', h⟩ := ih
      refine ⟨gs', ?_⟩
      rw [← h, hchars, hb]
      simp [Reader.trimEnd, hblank]
    · refine ⟨gs ++ [g], ?_⟩
      rw [hchars, hb]
      simp [Reader.trimEnd, hblank]

theorem resolve_chars (gs : List Glyph) : Reader.resolve (chars gs) = .ok (gs.map meaning) := by
  rw [Reader.resolve, unescape_chars]
  rfl

end Glyph

namespace Reader

/-- The reader that stands in front of markup. -/
def before (ending : Option Fault) (trims : Bool) (markup : List Markup) : Reader :=
  advance ⟨markup, ending, trims, .eof⟩

variable {ending : Option Fault} {trims : Bool} {ms rest : List Markup}

theorem ofScan_eq (s : Scan) : ofScan s = before s.fault true s.markup := rfl

theorem advance_mk (piece : Piece) : advance ⟨ms, ending, trims, piece⟩ = before ending trims ms := rfl

theorem before_start (tag : Tag) :
    before ending trims (.start tag :: rest) = ⟨rest, ending, true, .start tag⟩ := rfl

theorem before_finish (name : List Char) :
    before ending trims (.finish name :: rest) = ⟨rest, ending, true, .finish name⟩ := rfl

theorem before_passed : before ending trims (.passed :: rest) = before ending trims rest := rfl

theorem before_text_false (cs : List Char) :
    before ending false (.text cs :: rest) = ⟨rest, ending, false, .text cs⟩ := rfl

theorem before_text_true (cs : List Char) :
    before ending true (.text cs :: rest) =
      if trimStart cs = [] then before ending true rest
      else ⟨rest, ending, false, .text (trimStart cs)⟩ := by
  simp only [before, advance, pull, if_true]
  cases h : trimStart cs <;> rfl

/-- A reader has at least one piece of markup in hand. -/
theorem length_before_lt (ending : Option Fault) (trims : Bool) (h : ms ≠ []) :
    (before ending trims ms).markup.length < ms.length := by
  have hpull : (pull ending trims ms).2.1.length ≤ ms.length - 1 := by
    clear h
    induction ms with
    | nil => exact Nat.le_refl _
    | cons m ms ih =>
      cases m with
      | passed => exact ih.trans (Nat.sub_le ..)
      | text cs =>
        simp only [pull]
        split
        · split
          · exact ih.trans (Nat.sub_le ..)
          · exact Nat.le_refl _
        · exact Nat.le_refl _
      | _ => exact Nat.le_refl _
  have hpos := List.length_pos_iff.2 h
  exact lt_of_le_of_lt hpull (by omega)

/-- Markup that starts with a tag, where a text ends in any case. -/
inductive StartsTag : List Markup → Prop
  | start (tag : Tag) (rest : List Markup) : StartsTag (.start tag :: rest)
  | finish (name : List Char) (rest : List Markup) : StartsTag (.finish name :: rest)

theorem StartsTag.before_eq (h : StartsTag rest) : before ending trims rest = before ending true rest := by
  cases h <;> rfl

theorem StartsTag.ne_nil (h : StartsTag rest) : rest ≠ [] := by
  cases h <;> nofun

/-- What is behind a tag is left in any case. -/
theorem length_le_length_before (ending : Option Fault) (trims : Bool) (ms : List Markup)
    (h : StartsTag rest) :
    rest.length ≤ (before ending trims (ms ++ rest)).markup.length + 1 := by
  induction ms generalizing trims with
  | nil => cases h <;> exact Nat.le_refl _
  | cons m ms ih =>
    have hall : rest.length ≤ (ms ++ rest).length + 1 := by
      rw [List.length_append]
      omega
    cases m with
    | passed => exact ih trims
    | text cs =>
      cases trims with
      | false => exact hall
      | true =>
        rw [List.cons_append, before_text_true]
        split
        · exact ih true
        · exact hall
    | _ => exact hall

theorem length_before_le (ms : List Markup) (h : StartsTag rest) :
    (before ending true rest).markup.length ≤ (before ending trims (ms ++ rest)).markup.length :=
  Nat.le_of_lt_succ ((length_before_lt _ _ h.ne_nil).trans_le (length_le_length_before _ _ ms h))

/-- Markup that is part of a text, or stands between its parts. -/
inductive IsText : Markup → Prop
  | text (gs : List Glyph) : IsText (.text (Glyph.chars gs))
  | cdata (cs : List Char) : IsText (.cdata cs)
  | passed : IsText .passed

/-- The first part of a text. -/
inductive IsPart : Piece → Prop
  | text (gs : List Glyph) : IsPart (.text (Glyph.chars gs))
  | cdata (cs : List Char) : IsPart (.cdata cs)

/-- In front of a text, a reader has its first part in hand, or there is none and the text makes no
difference. -/
theorem before_text_cases (trims : Bool) (h : ∀ m ∈ ms, IsText m) :
    (∀ ending rest, StartsTag rest → before ending trims (ms ++ rest) = before ending true rest) ∨
      ∃ piece more, IsPart piece ∧ (∀ m ∈ more, IsText m) ∧
        ∀ ending rest, before ending trims (ms ++ rest) = ⟨more ++ rest, ending, false, piece⟩ := by
  induction ms with
  | nil => exact .inl fun _ _ hrest => hrest.before_eq
  | cons m ms ih =>
    have hms : ∀ m ∈ ms, IsText m := fun m hm => h m (.tail _ hm)
    cases h m (.head _) with
    | passed => exact ih hms
    | cdata cs => exact .inr ⟨.cdata cs, ms, .cdata cs, hms, fun _ _ => rfl⟩
    | text gs =>
      cases trims with
      | false => exact .inr ⟨.text (Glyph.chars gs), ms, .text gs, hms, fun _ _ => rfl⟩
      | true =>
        by_cases hblank : trimStart (Glyph.chars gs) = []
        · rcases ih hms with h | ⟨piece, more, hpiece, hmore, h⟩
          · refine .inl fun ending rest hrest => ?_
            rw [List.cons_append, before_text_true, if_pos hblank, h ending rest hrest]
          · refine .inr ⟨piece, more, hpiece, hmore, fun ending rest => ?_⟩
            rw [List.cons_append, before_text_true, if_pos hblank, h]
        · obtain ⟨gs', hgs'⟩ := Glyph.exists_trimStart gs
          refine .inr ⟨.text (Glyph.chars gs'), ms, .text gs', hms, fun ending rest => ?_⟩
          rw [List.cons_append, before_text_true, if_neg hblank, hgs']

/-- Whether a text ends is settled by what is left of it. -/
theorem exists_endsText (h : ∀ m ∈ ms, IsText m) : ∃ ends : Bool,
    (∀ ending rest, StartsTag rest → (before ending false (ms ++ rest)).endsText = ends) ∧
      (ends = true → ∀ ending rest, StartsTag rest →
        before ending false (ms ++ rest) = before ending true rest) := by
  rcases before_text_cases false h with h | ⟨piece, more, hpiece, -, h⟩
  · refine ⟨true, fun ending rest hrest => ?_, fun _ => h⟩
    rw [h ending rest hrest]
    cases hrest <;> rfl
  · refine ⟨false, fun ending rest _ => ?_, nofun⟩
    rw [h]
    cases hpiece <;> rfl

/-- All parts of a text are joined, whatever comes behind it. -/
theorem exists_joinText (h : ∀ m ∈ ms, IsText m) : ∃ chars, ∀ ending rest read fuel, StartsTag rest →
    (before ending false (ms ++ rest)).markup.length < fuel →
    joinText read fuel (before ending false (ms ++ rest)) = .ok (read ++ chars, before ending true rest) := by
  induction ms with
  | nil =>
    refine ⟨[], fun ending rest read fuel hrest hfuel => ?_⟩
    obtain ⟨fuel, rfl⟩ : ∃ n, fuel = n + 1 := ⟨fuel - 1, by omega⟩
    rw [List.nil_append, List.append_nil, hrest.before_eq]
    cases hrest <;> rfl
  | cons m ms ih =>
    have hms : ∀ m ∈ ms, IsText m := fun m hm => h m (.tail _ hm)
    obtain ⟨chars, ih⟩ := ih hms
    have hlength {ending : Option Fault} {rest : List Markup} (hrest : StartsTag rest) {fuel : Nat}
        (hfuel : (ms ++ rest).length < fuel + 1) :
        (before ending false (ms ++ rest)).markup.length < fuel := by
      have hne : ms ++ rest ≠ [] := fun h => hrest.ne_nil (List.append_eq_nil_iff.1 h).2
      have hlt := length_before_lt ending false hne
      omega
    cases h m (.head _) with
    | passed => exact ⟨chars, ih⟩
    | cdata cs =>
      refine ⟨cs ++ chars, fun ending rest read fuel hrest hfuel => ?_⟩
      obtain ⟨fuel, rfl⟩ : ∃ n, fuel = n + 1 := ⟨fuel - 1, by omega⟩
      rw [← List.append_assoc, ← ih ending rest _ fuel hrest (hlength hrest hfuel)]
      rfl
    | text gs =>
      obtain ⟨ends, hends, -⟩ := exists_endsText hms
      obtain ⟨gs', hgs'⟩ : ∃ gs', (if ends then trimEnd (Glyph.chars gs) else Glyph.chars gs) =
          Glyph.chars gs' := by
        cases ends with
        | true => exact Glyph.exists_trimEnd gs
        | false => exact ⟨gs, rfl⟩
      refine ⟨gs'.map Glyph.meaning ++ chars, fun ending rest read fuel hrest hfuel => ?_⟩
      obtain ⟨fuel, rfl⟩ : ∃ n, fuel = n + 1 := ⟨fuel - 1, by omega⟩
      rw [← List.append_assoc, ← ih ending rest _ fuel hrest (hlength hrest hfuel), List.cons_append,
        before_text_false, joinText]
      simp only [advance_mk, hends ending rest hrest, hgs', Glyph.resolve_chars]
      rfl

theorem StartsTag.nextWithin_eq (h : StartsTag rest) (fuel : Nat) :
    nextWithin (fuel + 1) (before ending true rest) = next (before ending true rest) := by
  cases h <;> rfl

/-- A text of which the first part is in hand is one event, or none when it is blank. -/
theorem exists_nextWithin {piece : Piece} (hpiece : IsPart piece) (h : ∀ m ∈ ms, IsText m) :
    ∃ found : Option (List Char), ∀ ending rest fuel, StartsTag rest →
      nextWithin (fuel + 2) ⟨ms ++ rest, ending, false, piece⟩ =
        match found with
        | some chars => .ok (.text chars, before ending true rest)
        | none => next (before ending true rest) := by
  obtain ⟨more, hmore⟩ := exists_joinText h
  have htextFrom (chars : List Char) (ending : Option Fault) (rest : List Markup)
      (hrest : StartsTag rest) : textFrom chars (before ending false (ms ++ rest)) =
        .ok (.text (chars ++ more), before ending true rest) := by
    rw [textFrom, hmore ending rest chars _ hrest (Nat.lt_succ_self _)]
    rfl
  cases hpiece with
  | cdata chars =>
    exact ⟨some (chars ++ more), fun ending rest fuel hrest => htextFrom chars ending rest hrest⟩
  | text gs =>
    obtain ⟨ends, hends, hnothing⟩ := exists_endsText h
    cases ends with
    | false =>
      refine ⟨some (gs.map Glyph.meaning ++ more), fun ending rest fuel hrest => ?_⟩
      dsimp only
      rw [← htextFrom _ ending rest hrest, nextWithin]
      simp only [advance_mk, hends ending rest hrest, Glyph.resolve_chars]
      rfl
    | true =>
      obtain ⟨gs', hgs'⟩ := Glyph.exists_trimEnd gs
      cases hchars : Glyph.chars gs' with
      | nil =>
        refine ⟨none, fun ending rest fuel hrest => ?_⟩
        rw [nextWithin]
        simp only [advance_mk, hends ending rest hrest, hgs', hchars, if_true]
        rw [hnothing rfl ending rest hrest, hrest.nextWithin_eq]
      | cons c cs =>
        refine ⟨some (gs'.map Glyph.meaning ++ more), fun ending rest fuel hrest => ?_⟩
        dsimp only
        rw [← htextFrom _ ending rest hrest, nextWithin]
        simp only [advance_mk, hends ending rest hrest, hgs', hchars, if_true]
        rw [← hchars, Glyph.resolve_chars]
        rfl

/-- The text that a reader gets from markup in front of a tag. -/
def text? (trims : Bool) (ms : List Markup) : Option (List Char) :=
  match (before none trims (ms ++ [.finish []])).next with
  | .ok (.text chars, _) => some chars
  | _ => none

/-- A text is one event or none, and nothing of it is left behind. -/
theorem next_text (ending : Option Fault) (trims : Bool) (h : ∀ m ∈ ms, IsText m) (hrest : StartsTag rest) :
    next (before ending trims (ms ++ rest)) =
      match text? trims ms with
      | some chars => .ok (.text chars, before ending true rest)
      | none => next (before ending true rest) := by
  have hend : StartsTag [.finish []] := .finish [] []
  rcases before_text_cases trims h with hbefore | ⟨piece, more, hpiece, hmore, hbefore⟩
  · have hnone : text? trims ms = none := by
      rw [text?, hbefore none _ hend]
      rfl
    rw [hnone, hbefore ending rest hrest]
  · obtain ⟨found, hfound⟩ := exists_nextWithin hpiece hmore
    have htext : text? trims ms = found := by
      rw [text?, hbefore, next, hfound none _ _ hend]
      cases found <;> rfl
    rw [htext, hbefore, next, hfound ending rest _ hrest]

/-- A text that is an event is itself at least one piece of markup. -/
theorem length_le_of_text? (ending : Option Fault) (rest : List Markup) {chars : List Char}
    (h : ∀ m ∈ ms, IsText m) (htext : text? trims ms = some chars) :
    rest.length ≤ (before ending trims (ms ++ rest)).markup.length := by
  rcases before_text_cases trims h with hbefore | ⟨piece, more, -, -, hbefore⟩
  · rw [text?, hbefore none _ (.finish [] [])] at htext
    cases htext
  · rw [hbefore, List.length_append]
    exact Nat.le_add_left ..

/-- A text is an event of its own and at least one piece of markup, or makes no difference. -/
theorem text_cases (ending : Option Fault) (trims : Bool) (h : ∀ m ∈ ms, IsText m)
    (hrest : StartsTag rest) :
    (text? trims ms = none ∧
      next (before ending trims (ms ++ rest)) = next (before ending true rest) ∧
      (before ending true rest).markup.length ≤ (before ending trims (ms ++ rest)).markup.length) ∨
    ∃ chars, text? trims ms = some chars ∧
      next (before ending trims (ms ++ rest)) = .ok (.text chars, before ending true rest) ∧
      (before ending true rest).markup.length < (before ending trims (ms ++ rest)).markup.length := by
  have hnext := next_text ending trims h hrest
  cases htext : text? trims ms with
  | none =>
    rw [htext] at hnext
    exact .inl ⟨rfl, hnext, length_before_le ms hrest⟩
  | some chars =>
    rw [htext] at hnext
    have hlt := length_before_lt ending true hrest.ne_nil
    exact .inr ⟨chars, rfl, hnext, hlt.trans_le (length_le_of_text? ending rest h htext)⟩

end Reader

/-! ### Runs and elements -/

theorem isText_of_mem_textMarkup (gs : List Glyph) :
    ∀ m ∈ textMarkup (Glyph.chars gs), Reader.IsText m := by
  intro m hm
  rw [textMarkup] at hm
  split at hm
  case isTrue => cases hm
  case isFalse =>
    obtain rfl := List.mem_singleton.1 hm
    exact .text gs

theorem Run.isText (r : Run) : ∀ m ∈ r.markup, Reader.IsText m := by
  intro m hm
  rcases List.mem_append.1 hm with hm | hm
  · exact isText_of_mem_textMarkup _ m hm
  · obtain ⟨⟨i, gs⟩, -, hm⟩ := List.mem_flatMap.1 hm
    rcases List.mem_cons.1 hm with rfl | hm
    · rcases i with a | ⟨cs, h⟩
      · exact .passed
      · exact .cdata cs
    · exact isText_of_mem_textMarkup gs m hm

namespace Reader

variable {ending : Option Fault} {name : List Char} {depth : Nat} {ms rest : List Markup}

theorem passElement_text (h : ∀ m ∈ ms, IsText m) :
    passElement ending name depth (ms ++ rest) = passElement ending name depth rest := by
  induction ms with
  | nil => rfl
  | cons m ms ih =>
    have hms := ih fun m hm => h m (.tail _ hm)
    cases h m (.head _) <;> exact hms

/-- The tags in a content balance. -/
theorem passElement_content (c : Content) :
    passElement ending name depth (c.markup ++ rest) = passElement ending name depth rest := by
  induction c generalizing depth rest with
  | last run => exact passElement_text run.isText
  | element run tag inner close more ihinner ihmore =>
    simp only [Content.markup, List.append_assoc, List.cons_append, passElement_text run.isText]
    by_cases hname : tag.name.1 = name
    · simp [passElement, StartTag.toTag, hname, ihinner, ihmore]
    · simp [passElement, StartTag.toTag, hname, ihinner, ihmore]

theorem skipElement_start {trims : Bool} {tag : Tag} {behind : List Markup}
    (h : passElement ending name 0 (.start tag :: behind) = .ok rest) :
    skipElement name (before ending trims (.start tag :: behind)) = .ok (before ending true rest) := by
  rw [passElement] at h
  simp only [before_start, skipElement, h]
  rfl

theorem skipElement_part {piece : Piece} (hpiece : IsPart piece)
    (h : passElement ending name 0 ms = .ok rest) :
    skipElement name ⟨ms, ending, false, piece⟩ = .ok (before ending false rest) := by
  cases hpiece <;> simp only [skipElement, h] <;> rfl

/-- An element whose start was read is passed over to its end; whether blanks are dropped behind it is
settled inside it. -/
theorem exists_skipElement (c : Content) (name : List Char) : ∃ trims, ∀ ending rest,
    skipElement name (before ending true (c.markup ++ .finish name :: rest)) =
      .ok (before ending trims rest) := by
  have hpass (ending : Option Fault) (rest : List Markup) :
      passElement ending name 0 (c.markup ++ .finish name :: rest) = .ok rest := by
    rw [passElement_content, passElement, if_pos rfl]
  cases c with
  | last run =>
    rw [Content.markup] at hpass ⊢
    rcases before_text_cases true run.isText with h | ⟨piece, more, hpiece, hmore, h⟩
    · refine ⟨true, fun ending rest => ?_⟩
      rw [h ending _ (.finish name rest), skipElement, before_finish]
      simp only [if_true]
      rfl
    · refine ⟨false, fun ending rest => ?_⟩
      rw [h]
      apply skipElement_part hpiece
      rw [passElement_text hmore, ← passElement_text run.isText, hpass]
  | element run tag inner close more =>
    simp only [Content.markup, List.append_assoc, List.cons_append] at hpass ⊢
    rcases before_text_cases true run.isText with h | ⟨piece, parts, hpiece, hparts, h⟩
    · refine ⟨true, fun ending rest => ?_⟩
      rw [h ending _ (.start ..)]
      apply skipElement_start
      rw [← passElement_text run.isText, hpass]
    · refine ⟨false, fun ending rest => ?_⟩
      rw [h]
      apply skipElement_part hpiece
      rw [passElement_text hparts, ← passElement_text run.isText, hpass]

end Reader

end Proctor.Xml
