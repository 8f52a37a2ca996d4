import Proctor.Proofs.DocumentEvents
import Proctor.Proofs.DocumentScan
import Proctor.Xml.Element

/-!
Reading records from written documents: an element is read by its own markup alone, its children one
after the other, and a list holds the children of one name.
-/

namespace Proctor.Xml

theorem Element.behindStart_append (e : Element) (rest : List Markup) :
    e.behindStart ++ rest = e.inner.markup ++ .finish e.tag.name.1 :: rest := by
  simp [behindStart]

theorem Content.markup_element (run : Run) (tag : StartTag) (inner : Content) (close : Close)
    (more : Content) (rest : List Markup) :
    (element run tag inner close more).markup ++ rest =
      run.markup ++ .start tag.toTag ::
        ((⟨tag, inner, close⟩ : Element).behindStart ++ (more.markup ++ rest)) := by
  simp [markup, Element.behindStart]

namespace Reading

variable {α β σ : Type}

theorem bind_apply (p : Reading α) (f : α → Reading β) (c : Cursor) :
    (p >>= f) c = (p c).bind fun found => f found.1 found.2 := rfl

open Reader (before StartsTag IsText)

variable {schema : Schema σ} {tag : Tag} {s : σ} {fuel : Nat} {ending : Option Fault} {trims : Bool}
variable {r r' : Reader} {ms rest : List Markup}

/-! ### Children one by one -/

theorem children_of_next (h : r.next = r'.next) :
    children schema tag s fuel ⟨r, []⟩ = children schema tag s fuel ⟨r', []⟩ := by
  cases fuel with
  | zero => rfl
  | succ fuel =>
    have hpeek : peek ⟨r, []⟩ = peek ⟨r', []⟩ := by simp only [peek, h]
    rw [children, bind_apply, bind_apply, hpeek]

/-- An event that is next is the same as one in the queue. -/
theorem children_of_event {event : Event} (h : r.next = .ok (event, r')) :
    children schema tag s fuel ⟨r, []⟩ = children schema tag s fuel ⟨r', [event]⟩ := by
  cases fuel with
  | zero => rfl
  | succ fuel =>
    have hpeek : peek ⟨r, []⟩ = peek ⟨r', [event]⟩ := by
      simp only [peek, h]
      rfl
    rw [children, bind_apply, bind_apply, hpeek]

section

variable {queue : List Event}

theorem children_text (chars : List Char) :
    children schema tag s (fuel + 1) ⟨r, .text chars :: queue⟩ =
      (schema.takeText s chars).bind fun s => children schema tag s fuel ⟨r, queue⟩ := by
  have hpeek : peek ⟨r, .text chars :: queue⟩ = .ok (.text chars, ⟨r, .text chars :: queue⟩) := rfl
  rw [children, bind_apply, hpeek]
  cases htext : schema.takeText s chars <;> simp only [Except.bind, bind_apply, take, lift, htext] <;> rfl

theorem children_unknown {child : Tag}
    (h : schema.takeChild s tag.name (String.ofList (localName child.name)) = none) :
    children schema tag s (fuel + 1) ⟨r, .start child :: queue⟩ =
      (skipElement child.name ⟨r, queue⟩).bind fun found => children schema tag s fuel found.2 := by
  have hpeek : peek ⟨r, .start child :: queue⟩ = .ok (.start child, ⟨r, .start child :: queue⟩) := rfl
  rw [children, bind_apply, hpeek]
  simp only [Except.bind, h]
  rfl

theorem children_known {child : Tag} {read : Reading σ}
    (h : schema.takeChild s tag.name (String.ofList (localName child.name)) = some read) :
    children schema tag s (fuel + 1) ⟨r, .start child :: queue⟩ =
      (read ⟨r, .start child :: queue⟩).bind fun found =>
        children schema tag found.1 fuel found.2 := by
  have hpeek : peek ⟨r, .start child :: queue⟩ = .ok (.start child, ⟨r, .start child :: queue⟩) := rfl
  rw [children, bind_apply, hpeek]
  simp only [Except.bind, h]
  rfl

end

theorem children_start (child : Tag) :
    children schema tag s fuel ⟨before ending trims (.start child :: rest), []⟩ =
      children schema tag s fuel ⟨before ending true rest, [.start child]⟩ :=
  children_of_event rfl

/-- Text between elements. -/
def takeRun (schema : Schema σ) (s : σ) (trims : Bool) (ms : List Markup) : Except Fault σ :=
  match Reader.text? trims ms with
  | some chars => schema.takeText s chars
  | none => .ok s

theorem children_run (schema : Schema σ) (tag : Tag) (s : σ) (trims : Bool)
    (h : ∀ m ∈ ms, IsText m) (hrest : StartsTag rest)
    (hfuel : (before ending trims (ms ++ rest)).markup.length < fuel) :
    ∃ fuel', (before ending true rest).markup.length < fuel' ∧
      children schema tag s fuel ⟨before ending trims (ms ++ rest), []⟩ =
        (takeRun schema s trims ms).bind fun s =>
          children schema tag s fuel' ⟨before ending true rest, []⟩ := by
  rw [takeRun]
  rcases Reader.text_cases ending trims h hrest with
    ⟨htext, hnext, hle⟩ | ⟨chars, htext, hnext, hlt⟩
  · rw [htext]
    exact ⟨fuel, hle.trans_lt hfuel, children_of_next hnext⟩
  · rw [htext]
    obtain ⟨fuel, rfl⟩ : ∃ n, fuel = n + 1 := ⟨fuel - 1, by omega⟩
    exact ⟨fuel, by omega, (children_of_event hnext).trans (children_text chars)⟩

theorem takeRun_eq_ok (h : ∀ s chars, schema.takeText s chars = .ok s) :
    takeRun schema s trims ms = .ok s := by
  rw [takeRun]
  split
  · exact h ..
  · rfl

/-- The reading of a child starts with its start tag, and leaves what is behind the child. A child that
the record does not know makes no difference. -/
def TakesChild (schema : Schema σ) (container : List Char) (s : σ) (e : Element)
    (result : Except Fault σ) : Prop :=
  match schema.takeChild s container e.localName with
  | none => result = .ok s
  | some read => ∀ ending rest, read ⟨before ending true (e.behindStart ++ rest), [.start e.tag.toTag]⟩ =
    result.map (·, ⟨before ending true rest, []⟩)

theorem TakesChild.unknown {container : List Char} {e : Element}
    (h : schema.takeChild s container e.localName = none) : TakesChild schema container s e (.ok s) := by
  rw [TakesChild, h]

theorem TakesChild.known {container : List Char} {e : Element} {read : Reading σ}
    {result : Except Fault σ} (h : schema.takeChild s container e.localName = some read)
    (hread : ∀ ending rest,
      read ⟨before ending true (e.behindStart ++ rest), [.start e.tag.toTag]⟩ =
        result.map (·, ⟨before ending true rest, []⟩)) : TakesChild schema container s e result := by
  rw [TakesChild, h]
  exact hread

theorem exists_skipElement (e : Element) : ∃ trims, ∀ ending rest,
    skipElement e.tag.name.1 ⟨before ending true (e.behindStart ++ rest), []⟩ =
      .ok ((), ⟨before ending trims rest, []⟩) := by
  obtain ⟨trims, h⟩ := Reader.exists_skipElement e.inner e.tag.name.1
  refine ⟨trims, fun ending rest => ?_⟩
  rw [e.behindStart_append]
  simp only [skipElement, passQueued, skipRepeatedly, h]
  rfl

theorem children_element {e : Element} {result : Except Fault σ}
    (h : TakesChild schema tag.name s e result) : ∃ trims', ∀ ending trims rest fuel,
    children schema tag s (fuel + 1)
        ⟨before ending trims (.start e.tag.toTag :: (e.behindStart ++ rest)), []⟩ =
      result.bind fun s => children schema tag s fuel ⟨before ending trims' rest, []⟩ := by
  rw [TakesChild] at h
  split at h
  case h_1 hunknown =>
    obtain ⟨trims', hskip⟩ := exists_skipElement e
    refine ⟨trims', fun ending trims rest fuel => ?_⟩
    rw [children_start, children_unknown hunknown, h]
    exact congrArg (Except.bind · _) (hskip ending rest)
  case h_2 read hknown =>
    refine ⟨true, fun ending trims rest fuel => ?_⟩
    rw [children_start, children_known hknown, h]
    cases result <;> rfl

/-- The run in front of a child is read, and what is left of the fuel is enough for the child and what
is behind it. -/
theorem children_run_element (run : Run) (e : Element) (behind : List Markup)
    (hfuel : (before ending trims (run.markup ++ .start e.tag.toTag ::
      (e.behindStart ++ behind))).markup.length < fuel) :
    ∃ fuel', behind.length < fuel' ∧
      children schema tag s fuel ⟨before ending trims (run.markup ++ .start e.tag.toTag ::
          (e.behindStart ++ behind)), []⟩ =
        (takeRun schema s trims run.markup).bind fun s => children schema tag s (fuel' + 1)
          ⟨before ending true (.start e.tag.toTag :: (e.behindStart ++ behind)), []⟩ := by
  obtain ⟨fuel', hfuel', hrun⟩ := children_run schema tag s trims run.isText (.start ..) hfuel
  obtain ⟨fuel', rfl⟩ : ∃ n, fuel' = n + 1 := ⟨fuel' - 1, by omega⟩
  refine ⟨fuel', ?_, hrun⟩
  rw [Reader.before_start, e.behindStart_append, List.length_append, List.length_cons] at hfuel'
  omega

/-- The children of an element are read one after the other, whatever comes behind the element. -/
theorem exists_children (tag : Tag) (c : Content) {step : σ → Element → Except Fault σ} (name : List Char)
    (h : ∀ s, ∀ e ∈ c.elements, TakesChild schema tag.name s e (step s e)) (s : σ) (trims : Bool) :
    ∃ result : Except Fault σ,
      (∀ ending rest fuel, (before ending trims (c.markup ++ .finish name :: rest)).markup.length < fuel →
        children schema tag s fuel ⟨before ending trims (c.markup ++ .finish name :: rest), []⟩ =
          result.map (·, ⟨before ending true rest, []⟩)) ∧
      ((∀ s chars, schema.takeText s chars = .ok s) → result = c.elements.foldlM step s) := by
  -- The state and whether blanks are dropped change with each child, so the induction is for all of them.
  induction c generalizing s trims with
  | last run =>
    refine ⟨takeRun schema s trims run.markup, fun ending rest fuel hfuel => ?_, fun htext => ?_⟩
    · obtain ⟨fuel', hfuel', hrun⟩ := children_run _ _ _ _ run.isText (.finish name rest) hfuel
      obtain ⟨fuel', rfl⟩ : ∃ n, fuel' = n + 1 := ⟨fuel' - 1, by omega⟩
      rw [Content.markup, hrun]
      rfl
    · rw [takeRun_eq_ok htext]
      rfl
  | element run tag' inner close more _ ih =>
    let e : Element := ⟨tag', inner, close⟩
    cases htake : takeRun schema s trims run.markup with
    | error fault =>
      refine ⟨.error fault, fun ending rest fuel hfuel => ?_, fun htext => ?_⟩
      · rw [Content.markup_element] at hfuel ⊢
        obtain ⟨fuel', -, hrun⟩ := children_run_element run e _ hfuel
        rw [hrun, htake]
        rfl
      · rw [takeRun_eq_ok htext] at htake
        cases htake
    | ok s' =>
      obtain ⟨trims', helement⟩ := children_element (h s' e (.head _))
      have hfirst (htext : ∀ s chars, schema.takeText s chars = .ok s) :
          (Content.element run tag' inner close more).elements.foldlM step s =
            (step s' e).bind (more.elements.foldlM step) := by
        rw [takeRun_eq_ok htext] at htake
        rw [← Except.ok.inj htake]
        rfl
      cases hstep : step s' e with
      | error fault =>
        refine ⟨.error fault, fun ending rest fuel hfuel => ?_, fun htext => ?_⟩
        · rw [Content.markup_element] at hfuel ⊢
          obtain ⟨fuel', -, hrun⟩ := children_run_element run e _ hfuel
          rw [hrun, htake, Except.bind, helement, hstep]
          rfl
        · rw [hfirst htext, hstep]
          rfl
      | ok s'' =>
        obtain ⟨result, hread, hresult⟩ := ih (fun s e he => h s e (.tail _ he)) s'' trims'
        refine ⟨result, fun ending rest fuel hfuel => ?_, fun htext => ?_⟩
        · rw [Content.markup_element] at hfuel ⊢
          obtain ⟨fuel', hfuel', hrun⟩ := children_run_element run e _ hfuel
          rw [hrun, htake, Except.bind, helement, hstep]
          exact hread ending rest fuel' ((Reader.length_before_lt _ _ (by simp)).trans hfuel')
        · rw [hfirst htext, hstep, hresult htext]
          rfl

/-! ### Elements -/

/-- What is read from markup, which nothing behind the markup changes. -/
def KeepsTo (read : Reading α) (ms : List Markup) (result : Except Fault α) : Prop :=
  ∀ ending rest, read ⟨before ending true (ms ++ rest), []⟩ =
    result.map (·, ⟨before ending true rest, []⟩)

/-- What is read from markup with nothing behind it. -/
def alone (read : Reading α) (ms : List Markup) : Except Fault α :=
  (read ⟨before none true ms, []⟩).map (·.1)

theorem KeepsTo.eq_alone {read : Reading α} {result : Except Fault α} (h : KeepsTo read ms result) :
    result = alone read ms := by
  have hnone := h none []
  rw [List.append_nil] at hnone
  rw [alone, hnone]
  cases result <;> rfl

/-- All attributes of a written tag count, in order. -/
theorem attributes_written (t : StartTag) : attributes schema t.toTag s =
    (t.attributes.map WrittenAttribute.toAttribute).foldlM
      (fun s a => schema.takeAttribute s a.fieldName a.value) s := by
  rw [attributes, attributes_toTag]
  exact bind_pure _

theorem attributes_ignored (h : ∀ name value, schema.takeAttribute s name value = .ok s) (t : StartTag) :
    attributes schema t.toTag s = .ok s := by
  rw [attributes_written]
  induction t.attributes.map WrittenAttribute.toAttribute with
  | nil => rfl
  | cons a as ih =>
    rw [List.foldlM_cons, h]
    exact ih

theorem element_apply (c : Cursor) : element schema s tag c =
    (attributes schema tag s).bind fun s => children schema tag s c.size c := by
  rw [element, bind_apply]
  cases attributes schema tag s <;> simp only [lift] <;> rfl

/-- A record keeps to its element, and if texts do not count it is made of the attributes and then the
children. -/
theorem exists_element (schema : Schema σ) (e : Element) {step : σ → Element → Except Fault σ}
    (h : ∀ s, ∀ child ∈ e.inner.elements, TakesChild schema e.tag.name.1 s child (step s child)) (s : σ) :
    ∃ result, KeepsTo (element schema s e.tag.toTag) e.behindStart result ∧
      ((∀ s chars, schema.takeText s chars = .ok s) →
        result = (attributes schema e.tag.toTag s).bind (e.inner.elements.foldlM step)) := by
  cases hattributes : attributes schema e.tag.toTag s with
  | error fault =>
    refine ⟨.error fault, fun ending rest => ?_, fun _ => rfl⟩
    rw [element_apply, hattributes]
    rfl
  | ok s' =>
    obtain ⟨result, hread, hresult⟩ := exists_children e.tag.toTag e.inner e.tag.name.1 h s' true
    refine ⟨result, fun ending rest => ?_, hresult⟩
    rw [element_apply, hattributes, e.behindStart_append]
    exact hread ending rest _ (by simp only [Cursor.size]; omega)

/-- An element of text alone is its attributes and then its text. -/
theorem element_text (schema : Schema σ) (s : σ) {e : Element} {run : Run} (h : e.inner = .last run) :
    KeepsTo (element schema s e.tag.toTag) e.behindStart
      ((attributes schema e.tag.toTag s).bind fun s => takeRun schema s true run.markup) := by
  intro ending rest
  rw [element_apply]
  cases attributes schema e.tag.toTag s with
  | error fault => rfl
  | ok s' =>
    rw [e.behindStart_append, h]
    obtain ⟨fuel, hfuel, hrun⟩ := children_run schema e.tag.toTag s' true run.isText
      (.finish e.tag.name.1 rest) (Nat.lt_add_of_pos_right (show 0 < 3 by decide))
    obtain ⟨fuel, rfl⟩ : ∃ n, fuel = n + 1 := ⟨fuel - 1, by omega⟩
    exact hrun

/-! ### Documents -/

theorem before_blanks (b : Blanks) :
    before ending true (textMarkup b.1 ++ rest) = before ending true rest := by
  have htrim : Reader.trimStart b.1 = [] := List.dropWhile_eq_nil_iff.2 b.2
  rw [textMarkup]
  split
  case isTrue => rfl
  case isFalse => rw [List.singleton_append, Reader.before_text_true, if_pos htrim]

theorem nextWithin_doctype :
    Reader.nextWithin (fuel + 1) (before ending trims (.doctype :: rest)) =
      Reader.nextWithin fuel (before ending true rest) := rfl

/-- Headings and the blanks between them are no events. -/
theorem nextWithin_headings (more : List (Heading × Blanks)) (start : Tag)
    (hfuel : (before ending true (more.flatMap (fun (h, b) => h.markup :: textMarkup b.1) ++
      .start start :: rest)).markup.length < fuel) :
    Reader.nextWithin fuel (before ending true
        (more.flatMap (fun (h, b) => h.markup :: textMarkup b.1) ++ .start start :: rest)) =
      .ok (.start start, before ending true rest) := by
  induction more generalizing fuel with
  | nil =>
    obtain ⟨fuel, rfl⟩ : ∃ n, fuel = n + 1 := ⟨fuel - 1, by omega⟩
    rfl
  | cons piece more ih =>
    obtain ⟨h, b⟩ := piece
    rw [List.flatMap_cons, List.append_assoc, List.cons_append] at hfuel ⊢
    cases h with
    | aside a =>
      rw [Heading.markup, Reader.before_passed, before_blanks] at hfuel ⊢
      exact ih hfuel
    | doctype cs hne h =>
      obtain ⟨fuel, rfl⟩ : ∃ n, fuel = n + 1 := ⟨fuel - 1, by omega⟩
      have hlength : (textMarkup b.1 ++ (more.flatMap (fun (h, b) => h.markup :: textMarkup b.1) ++
          .start start :: rest)).length < fuel + 1 := hfuel
      have hlt := Reader.length_before_lt ending true
        (show more.flatMap (fun (h, b) => h.markup :: textMarkup b.1) ++ .start start :: rest ≠ [] by simp)
      rw [List.length_append] at hlength
      rw [Heading.markup, nextWithin_doctype, before_blanks]
      exact ih (by omega)

theorem next_prolog (ending : Option Fault) (p : Prolog) (start : Tag) (rest : List Markup) :
    (before ending true (p.markup ++ .start start :: rest)).next =
      .ok (.start start, before ending true rest) := by
  rw [Prolog.markup, List.append_assoc, before_blanks, Reader.next]
  exact nextWithin_headings p.more start (Nat.lt_add_of_pos_right (show 0 < 2 by decide))

/-- A record is read from the root of a document, whatever is in front of it and behind it. -/
theorem run_document (d : Document) (kind : String) {result : Except Fault σ}
    (h : KeepsTo (element schema s d.root.tag.toTag) d.root.behindStart result) :
    (document kind schema s).run (scan d.text.toList) = result := by
  obtain ⟨more, fault, hscan⟩ := scan_document d
  have hnext := next_prolog fault d.prolog d.root.tag.toTag (d.root.behindStart ++ more)
  have hskip (fuel : Nat) : skipBlankText (fuel + 1)
      ⟨before fault true (d.prolog.markup ++ .start d.root.tag.toTag :: (d.root.behindStart ++ more)), []⟩ =
      .ok ((), ⟨before fault true (d.root.behindStart ++ more), [.start d.root.tag.toTag]⟩) := by
    rw [skipBlankText, bind_apply]
    simp only [peek, hnext]
    rfl
  have hread := h fault more
  rw [run, hscan, Cursor.ofScan, Reader.ofScan_eq, document]
  simp only [bind_apply, size, Cursor.size, Except.bind, hskip]
  change ((element schema s d.root.tag.toTag) _).map _ = _
  rw [hread]
  cases result <;> rfl

theorem start_not_mem_prolog (p : Prolog) (start : Tag) : .start start ∉ p.markup := by
  have htext (cs : List Char) : .start start ∉ textMarkup cs := by
    rw [textMarkup]
    split <;> simp
  intro h
  rcases List.mem_append.1 h with h | h
  · exact htext _ h
  · obtain ⟨⟨heading, b⟩, -, h⟩ := List.mem_flatMap.1 h
    rcases List.mem_cons.1 h with h | h
    · cases heading <;> cases h
    · exact htext _ h

theorem rootName_document (d : Document) :
    rootName (scan d.text.toList) = .ok (localName d.root.tag.name.1) := by
  obtain ⟨more, fault, hscan⟩ := scan_document d
  rw [hscan, rootName.eq_def]
  dsimp only
  rw [List.findSome?_append, List.findSome?_eq_none_iff.2, Option.none_or]
  · rfl
  · intro m hm
    cases m with
    | start start => exact absurd hm (start_not_mem_prolog _ _)
    | _ => rfl

end Reading

end Proctor.Xml
