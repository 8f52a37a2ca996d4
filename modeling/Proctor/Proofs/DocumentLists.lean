import Proctor.Proofs.DocumentReading

/-!
Lists of children: all children of one name, with others between them that are passed over once the list
is read.

Main statement: `list_element`.
-/

namespace Proctor.Xml

namespace Reading

open Reader (before StartsTag IsText)

variable {α σ : Type} {schema : Schema σ} {tag : Tag} {s : σ} {fuel : Nat} {ending : Option Fault}
variable {trims : Bool} {r r' : Reader} {ms rest : List Markup}

/-! ### Elements passed over in a queue -/

/-- Events of which every start has its end. -/
def Balanced (events : List Event) : Prop :=
  ∀ name depth queue, passQueued name depth (events ++ queue) = passQueued name depth queue

theorem Balanced.nil : Balanced [] := fun _ _ _ => rfl

theorem Balanced.append {events events' : List Event} (h : Balanced events) (h' : Balanced events') :
    Balanced (events ++ events') := by
  intro name depth queue
  rw [List.append_assoc, h, h']

theorem Balanced.text (chars : List Char) : Balanced [.text chars] := fun _ _ _ => rfl

theorem Balanced.element {events : List Event} (h : Balanced events) (tag : StartTag) :
    Balanced (.start tag.toTag :: events ++ [.finish tag.name.1]) := by
  intro name depth queue
  rw [List.append_assoc, List.cons_append, passQueued, h]
  by_cases hname : tag.name.1 = name
  · simp [passQueued, StartTag.toTag, hname]
  · simp [passQueued, StartTag.toTag, hname]

section

variable {name : List Char} {taken : List Event} {depth : Nat}

theorem takeElement_of_next (h : r.next = r'.next) :
    takeElement name taken depth (fuel + 1) ⟨r, []⟩ =
      takeElement name taken depth (fuel + 1) ⟨r', []⟩ := by
  have htake : take ⟨r, []⟩ = take ⟨r', []⟩ := by simp only [take, h]
  rw [takeElement, bind_apply, bind_apply, htake]

theorem takeElement_text {chars : List Char} (h : r.next = .ok (.text chars, r')) :
    takeElement name taken depth (fuel + 1) ⟨r, []⟩ =
      takeElement name (.text chars :: taken) depth fuel ⟨r', []⟩ := by
  have htake : take ⟨r, []⟩ = .ok (.text chars, ⟨r', []⟩) := by
    simp only [take, h]
    rfl
  rw [takeElement, bind_apply, htake]
  rfl

theorem takeElement_start (tag : Tag) :
    takeElement name taken depth (fuel + 1) ⟨before ending trims (.start tag :: rest), []⟩ =
      takeElement name (.start tag :: taken) (if tag.name = name then depth + 1 else depth) fuel
        ⟨before ending true rest, []⟩ := rfl

/-- The event of a text, if it is one. -/
def textEvents (run : Run) : List Event :=
  ((Reader.text? true run.markup).map Event.text).toList

theorem length_textEvents_le (run : Run) : (textEvents run).length ≤ run.markup.length := by
  rw [textEvents]
  cases htext : Reader.text? true run.markup with
  | none => exact Nat.zero_le _
  | some chars =>
    cases hmarkup : run.markup with
    | nil =>
      rw [hmarkup] at htext
      cases htext
    | cons m ms => exact Nat.succ_le_succ (Nat.zero_le _)

theorem balanced_textEvents (run : Run) : Balanced (textEvents run) := by
  rw [textEvents]
  cases Reader.text? true run.markup with
  | none => exact .nil
  | some chars => exact .text chars

theorem takeElement_run (run : Run) (hrest : StartsTag rest)
    (hfuel : (before ending true (run.markup ++ rest)).markup.length < fuel) :
    ∃ fuel', (before ending true rest).markup.length < fuel' ∧
      takeElement name taken depth fuel ⟨before ending true (run.markup ++ rest), []⟩ =
        takeElement name ((textEvents run).reverse ++ taken) depth fuel'
          ⟨before ending true rest, []⟩ := by
  obtain ⟨fuel, rfl⟩ : ∃ n, fuel = n + 1 := ⟨fuel - 1, by omega⟩
  rw [textEvents]
  rcases Reader.text_cases ending true run.isText hrest with
    ⟨htext, hnext, hle⟩ | ⟨chars, htext, hnext, hlt⟩
  · rw [htext]
    exact ⟨fuel + 1, hle.trans_lt hfuel, takeElement_of_next hnext⟩
  · rw [htext]
    exact ⟨fuel, by omega, takeElement_text hnext⟩

theorem takeElement_finish_other {found : List Char} (h : found ≠ name) :
    takeElement name taken depth (fuel + 1) ⟨before ending trims (.finish found :: rest), []⟩ =
      takeElement name (.finish found :: taken) depth fuel ⟨before ending true rest, []⟩ := by
  have htake : take ⟨before ending trims (.finish found :: rest), []⟩ =
      .ok (.finish found, ⟨before ending true rest, []⟩) := rfl
  rw [takeElement, bind_apply, htake]
  simp only [Except.bind, if_neg h]

theorem takeElement_finish_inner :
    takeElement name taken (depth + 1) (fuel + 1) ⟨before ending trims (.finish name :: rest), []⟩ =
      takeElement name (.finish name :: taken) depth fuel ⟨before ending true rest, []⟩ := by
  have htake : take ⟨before ending trims (.finish name :: rest), []⟩ =
      .ok (.finish name, ⟨before ending true rest, []⟩) := rfl
  rw [takeElement, bind_apply, htake]
  simp only [Except.bind, if_true]

theorem takeElement_finish :
    takeElement name taken 0 (fuel + 1) ⟨before ending trims (.finish name :: rest), []⟩ =
      .ok (.finish name :: taken, ⟨before ending true rest, []⟩) := by
  have htake : take ⟨before ending trims (.finish name :: rest), []⟩ =
      .ok (.finish name, ⟨before ending true rest, []⟩) := rfl
  rw [takeElement, bind_apply, htake]
  simp only [Except.bind, if_true]
  rfl

theorem takeElement_inner (tag : StartTag) {events : List Event} (behind : List Markup) (fuel : Nat)
    (hne : behind ≠ [])
    (hinner : ∀ depth taken fuel,
      (before ending true (ms ++ .finish tag.name.1 :: behind)).markup.length < fuel →
      ∃ fuel', behind.length < fuel' ∧
        takeElement name taken depth fuel
            ⟨before ending true (ms ++ .finish tag.name.1 :: behind), []⟩ =
          takeElement name (events.reverse ++ taken) depth fuel'
            ⟨before ending true (.finish tag.name.1 :: behind), []⟩)
    (hfuel : (ms ++ .finish tag.name.1 :: behind).length < fuel) :
    ∃ fuel', (before ending true behind).markup.length < fuel' ∧
      takeElement name taken depth fuel
          ⟨before ending trims (.start tag.toTag :: (ms ++ .finish tag.name.1 :: behind)), []⟩ =
        takeElement name (.finish tag.name.1 :: events.reverse ++ .start tag.toTag :: taken) depth fuel'
          ⟨before ending true behind, []⟩ := by
  obtain ⟨fuel, rfl⟩ : ∃ n, fuel = n + 1 := ⟨fuel - 1, by omega⟩
  have hlt := Reader.length_before_lt ending true
    (show ms ++ .finish tag.name.1 :: behind ≠ [] by simp)
  obtain ⟨fuel', hfuel', hevents⟩ := hinner (if tag.name.1 = name then depth + 1 else depth)
    (.start tag.toTag :: taken) fuel (by omega)
  obtain ⟨fuel', rfl⟩ : ∃ n, fuel' = n + 1 := ⟨fuel' - 1, by omega⟩
  refine ⟨fuel', (Reader.length_before_lt _ _ hne).trans_le (by omega), ?_⟩
  rw [takeElement_start]
  refine hevents.trans ?_
  by_cases hname : tag.name.1 = name
  · subst hname
    rw [if_pos rfl, takeElement_finish_inner]
    rfl
  · rw [if_neg hname, takeElement_finish_other hname]
    rfl

/-- The events of a content, which readers get from it whatever is behind it. -/
theorem exists_events (c : Content) : ∃ events, Balanced events ∧ events.length ≤ c.markup.length ∧
    ∀ ending rest name taken depth fuel, StartsTag rest →
      (before ending true (c.markup ++ rest)).markup.length < fuel →
      ∃ fuel', (before ending true rest).markup.length < fuel' ∧
        takeElement name taken depth fuel ⟨before ending true (c.markup ++ rest), []⟩ =
          takeElement name (events.reverse ++ taken) depth fuel' ⟨before ending true rest, []⟩ := by
  induction c with
  | last run =>
    exact ⟨textEvents run, balanced_textEvents run, length_textEvents_le run,
      fun _ _ _ _ _ _ hrest hfuel => takeElement_run run hrest hfuel⟩
  | element run tag inner close more ihinner ihmore =>
    obtain ⟨events, hevents, hlength, hinner⟩ := ihinner
    obtain ⟨events', hevents', hlength', hmore⟩ := ihmore
    refine ⟨textEvents run ++ ((.start tag.toTag :: events ++ [.finish tag.name.1]) ++ events'),
      (balanced_textEvents run).append ((hevents.element tag).append hevents'), ?_, ?_⟩
    · have hrun := length_textEvents_le run
      simp only [Content.markup, List.length_append, List.length_cons, List.length_nil]
      omega
    · intro ending rest name taken depth fuel hrest hfuel
      rw [Content.markup_element, Element.behindStart_append] at hfuel ⊢
      have hne : more.markup ++ rest ≠ [] := fun h => hrest.ne_nil (List.append_eq_nil_iff.1 h).2
      obtain ⟨fuel₁, hfuel₁, hrun⟩ := takeElement_run run (.start ..) hfuel
      obtain ⟨fuel₂, hfuel₂, helement⟩ := takeElement_inner tag (more.markup ++ rest) fuel₁ hne
        (fun depth taken fuel h => hinner ending _ name taken depth fuel (.finish ..) h) hfuel₁
      obtain ⟨fuel₃, hfuel₃, hlast⟩ := hmore ending rest name _ depth fuel₂ hrest hfuel₂
      refine ⟨fuel₃, hfuel₃, ?_⟩
      rw [hrun, helement, hlast]
      simp

/-- An element whose start was taken is taken to its end. -/
theorem exists_takeElement (e : Element) : ∃ events, Balanced events ∧
    events.length ≤ e.inner.markup.length ∧ ∀ ending rest taken fuel,
      (before ending true (e.behindStart ++ rest)).markup.length < fuel →
      takeElement e.tag.name.1 taken 0 fuel ⟨before ending true (e.behindStart ++ rest), []⟩ =
        .ok (.finish e.tag.name.1 :: events.reverse ++ taken, ⟨before ending true rest, []⟩) := by
  obtain ⟨events, hbalanced, hlength, hevents⟩ := exists_events e.inner
  refine ⟨events, hbalanced, hlength, fun ending rest taken fuel hfuel => ?_⟩
  rw [e.behindStart_append] at hfuel ⊢
  obtain ⟨fuel', hfuel', htake⟩ := hevents ending _ e.tag.name.1 taken 0 fuel (.finish ..) hfuel
  obtain ⟨fuel', rfl⟩ : ∃ n, fuel' = n + 1 := ⟨fuel' - 1, by omega⟩
  rw [htake, takeElement_finish]
  rfl

end

/-! ### Lists -/

/-- Events of texts and whole elements, with the start tags of these elements. -/
inductive Forest : List Event → List Tag → Prop
  | nil : Forest [] []
  | text {events : List Event} {tags : List Tag} (chars : List Char) (h : Forest events tags) :
    Forest (.text chars :: events) tags
  | element {inner events : List Event} {tags : List Tag} (tag : Tag) (hinner : Balanced inner)
    (h : Forest events tags) : Forest (.start tag :: inner ++ .finish tag.name :: events) (tag :: tags)

theorem Forest.textEvents_append {events : List Event} {tags : List Tag} (run : Run)
    (h : Forest events tags) : Forest (textEvents run ++ events) tags := by
  rw [textEvents]
  cases Reader.text? true run.markup with
  | none => exact h
  | some chars => exact .text chars h

section

variable {container name : List Char} {item : Tag → Reading α} {items : List α} {passed : List Event}

theorem listItems_of_next (h : r.next = r'.next) :
    listItems container name item items passed fuel ⟨r, []⟩ =
      listItems container name item items passed fuel ⟨r', []⟩ := by
  cases fuel with
  | zero => rfl
  | succ fuel =>
    have hpeek : peek ⟨r, []⟩ = peek ⟨r', []⟩ := by simp only [peek, h]
    rw [listItems, bind_apply, bind_apply, hpeek]

theorem listItems_text {chars : List Char} (h : r.next = .ok (.text chars, r')) :
    listItems container name item items passed (fuel + 1) ⟨r, []⟩ =
      listItems container name item items (.text chars :: passed) fuel ⟨r', []⟩ := by
  have hpeek : peek ⟨r, []⟩ = .ok (.text chars, ⟨r', [.text chars]⟩) := by
    simp only [peek, h]
    rfl
  rw [listItems, bind_apply, hpeek]
  rfl

theorem listItems_run (run : Run) (hrest : StartsTag rest)
    (hfuel : (before ending true (run.markup ++ rest)).markup.length < fuel) :
    ∃ fuel', (before ending true rest).markup.length < fuel' ∧
      listItems container name item items passed fuel ⟨before ending true (run.markup ++ rest), []⟩ =
        listItems container name item items ((textEvents run).reverse ++ passed) fuel'
          ⟨before ending true rest, []⟩ := by
  rw [textEvents]
  rcases Reader.text_cases ending true run.isText hrest with
    ⟨htext, hnext, hle⟩ | ⟨chars, htext, hnext, hlt⟩
  · rw [htext]
    exact ⟨fuel, hle.trans_lt hfuel, listItems_of_next hnext⟩
  · rw [htext]
    obtain ⟨fuel, rfl⟩ : ∃ n, fuel = n + 1 := ⟨fuel - 1, by omega⟩
    exact ⟨fuel, by omega, listItems_text hnext⟩

theorem listItems_run_element (run : Run) (e : Element) (behind : List Markup)
    (hfuel : (before ending true (run.markup ++ .start e.tag.toTag ::
      (e.behindStart ++ behind))).markup.length < fuel) :
    ∃ fuel', behind.length < fuel' ∧
      listItems container name item items passed fuel ⟨before ending true (run.markup ++
          .start e.tag.toTag :: (e.behindStart ++ behind)), []⟩ =
        listItems container name item items ((textEvents run).reverse ++ passed) (fuel' + 1)
          ⟨before ending true (.start e.tag.toTag :: (e.behindStart ++ behind)), []⟩ := by
  obtain ⟨fuel', hfuel', hrun⟩ := listItems_run run (.start ..) hfuel
  obtain ⟨fuel', rfl⟩ : ∃ n, fuel' = n + 1 := ⟨fuel' - 1, by omega⟩
  refine ⟨fuel', ?_, hrun⟩
  rw [Reader.before_start, e.behindStart_append, List.length_append, List.length_cons] at hfuel'
  omega

theorem listItems_finish (found : List Char) :
    listItems container name item items passed (fuel + 1)
        ⟨before ending trims (.finish found :: rest), []⟩ =
      .ok (items.reverse, ⟨before ending true rest, passed.reverse ++ [.finish found]⟩) := rfl

theorem listItems_item {child : Tag} (h : child.name = name) :
    listItems container name item items passed (fuel + 1) ⟨before ending true rest, [.start child]⟩ =
      (item child ⟨before ending true rest, []⟩).bind fun found =>
        listItems container name item (found.1 :: items) passed fuel found.2 := by
  have hpeek : peek ⟨before ending true rest, [.start child]⟩ =
      .ok (.start child, ⟨before ending true rest, [.start child]⟩) := rfl
  rw [listItems, bind_apply, hpeek]
  simp only [Except.bind, if_pos h]
  rfl

theorem listItems_start (child : Tag) :
    listItems container name item items passed fuel ⟨before ending trims (.start child :: rest), []⟩ =
      listItems container name item items passed fuel ⟨before ending true rest, [.start child]⟩ := by
  cases fuel <;> rfl

theorem listItems_other {child : Tag} (h : child.name ≠ name) :
    listItems container name item items passed (fuel + 1)
        ⟨before ending trims (.start child :: rest), []⟩ =
      (takeElement child.name (.start child :: passed) 0
          ((before ending true rest).markup.length + 3) ⟨before ending true rest, []⟩).bind fun found =>
        listItems container name item items found.1 fuel found.2 := by
  have hpeek : peek ⟨before ending trims (.start child :: rest), []⟩ =
      .ok (.start child, ⟨before ending true rest, [.start child]⟩) := rfl
  rw [listItems, bind_apply, hpeek]
  simp only [Except.bind, if_neg h]
  rfl

/-- An element with the name of the list is read as an item. -/
theorem listItems_run_item {result : Except Fault α} (run : Run) (e : Element) (behind : List Markup)
    (hname : e.tag.name.1 = name) (hitem : KeepsTo (item e.tag.toTag) e.behindStart result)
    (hne : behind ≠ [])
    (hfuel : (before ending true (run.markup ++ .start e.tag.toTag ::
      (e.behindStart ++ behind))).markup.length < fuel) :
    ∃ fuel', (before ending true behind).markup.length < fuel' ∧
      listItems container name item items passed fuel ⟨before ending true (run.markup ++
          .start e.tag.toTag :: (e.behindStart ++ behind)), []⟩ =
        result.bind fun a => listItems container name item (a :: items) ((textEvents run).reverse ++ passed)
          fuel' ⟨before ending true behind, []⟩ := by
  obtain ⟨fuel', hfuel', hrun⟩ := listItems_run_element run e behind hfuel
  refine ⟨fuel', (Reader.length_before_lt _ _ hne).trans hfuel', ?_⟩
  rw [hrun, listItems_start, listItems_item hname, hitem]
  cases result <;> rfl

/-- An element with another name is passed over, and its events are kept. -/
theorem listItems_run_other {inside : List Event} (run : Run) (e : Element) (behind : List Markup)
    (hname : e.tag.name.1 ≠ name)
    (hinside : ∀ taken fuel, (before ending true (e.behindStart ++ behind)).markup.length < fuel →
      takeElement e.tag.name.1 taken 0 fuel ⟨before ending true (e.behindStart ++ behind), []⟩ =
        .ok (.finish e.tag.name.1 :: inside.reverse ++ taken, ⟨before ending true behind, []⟩))
    (hne : behind ≠ [])
    (hfuel : (before ending true (run.markup ++ .start e.tag.toTag ::
      (e.behindStart ++ behind))).markup.length < fuel) :
    ∃ fuel', (before ending true behind).markup.length < fuel' ∧
      listItems container name item items passed fuel ⟨before ending true (run.markup ++
          .start e.tag.toTag :: (e.behindStart ++ behind)), []⟩ =
        listItems container name item items
          (.finish e.tag.name.1 :: inside.reverse ++ .start e.tag.toTag :: ((textEvents run).reverse ++ passed))
          fuel' ⟨before ending true behind, []⟩ := by
  obtain ⟨fuel', hfuel', hrun⟩ := listItems_run_element run e behind hfuel
  refine ⟨fuel', (Reader.length_before_lt _ _ hne).trans hfuel', ?_⟩
  have hother : e.tag.toTag.name ≠ name := hname
  have htaken := hinside (.start e.tag.toTag :: ((textEvents run).reverse ++ passed)) _
    (Nat.lt_add_of_pos_right (show 0 < 3 by decide))
  rw [hrun, listItems_other hother]
  exact congrArg (Except.bind · _) htaken

/-- The elements of a content that have a name. -/
def named (name : List Char) (c : Content) : List Element :=
  c.elements.filter (·.tag.name.1 = name)

/-- The start tags of all others. -/
def othersOf (name : List Char) (c : Content) : List Tag :=
  (c.elements.filter (·.tag.name.1 ≠ name)).map (·.tag.toTag)

/-- A list holds what is read of the elements with its name; the events of all others are behind it. -/
theorem exists_listItems (container name : List Char) (c : Content) {dec : Element → Except Fault α}
    (parent : List Char)
    (h : ∀ e ∈ named name c, KeepsTo (item e.tag.toTag) e.behindStart (dec e)) :
    ∃ events, Forest events (othersOf name c) ∧ events.length ≤ c.markup.length ∧
      ∀ ending rest items passed fuel,
        (before ending true (c.markup ++ .finish parent :: rest)).markup.length < fuel →
        listItems container name item items passed fuel
            ⟨before ending true (c.markup ++ .finish parent :: rest), []⟩ =
          ((named name c).mapM dec).map fun found => (items.reverse ++ found,
            ⟨before ending true rest, passed.reverse ++ events ++ [.finish parent]⟩) := by
  induction c with
  | last run =>
    refine ⟨textEvents run, ?_, length_textEvents_le run, fun ending rest items passed fuel hfuel => ?_⟩
    · have hforest := Forest.nil.textEvents_append run
      rwa [List.append_nil] at hforest
    · obtain ⟨fuel', hfuel', hrun⟩ := listItems_run run (.finish parent rest) hfuel
      obtain ⟨fuel', rfl⟩ : ∃ n, fuel' = n + 1 := ⟨fuel' - 1, by omega⟩
      rw [Content.markup, hrun, listItems_finish]
      simp [named, Content.elements, Except.map, pure, Except.pure]
  | element run tag inner close more _ ih =>
    let e : Element := ⟨tag, inner, close⟩
    by_cases hname : tag.name.1 = name
    · have hnamed : named name (.element run tag inner close more) = e :: named name more := by
        simp [named, Content.elements, hname, e]
      have hothers : othersOf name (.element run tag inner close more) = othersOf name more := by
        simp [othersOf, Content.elements, hname]
      rw [hnamed] at h ⊢
      rw [hothers]
      obtain ⟨events, hforest, hlength, hmore⟩ := ih fun e he => h e (.tail _ he)
      refine ⟨textEvents run ++ events, hforest.textEvents_append run, ?_, ?_⟩
      · have hrun := length_textEvents_le run
        simp only [Content.markup, List.length_append, List.length_cons]
        omega
      · intro ending rest items passed fuel hfuel
        rw [Content.markup_element] at hfuel ⊢
        obtain ⟨fuel', hfuel', hrun⟩ := listItems_run_item run e _ hname (h e (.head _)) (by simp) hfuel
        rw [hrun, List.mapM_cons]
        cases hdec : dec e with
        | error fault => rfl
        | ok a =>
          refine (hmore ending rest (a :: items) _ fuel' hfuel').trans ?_
          cases (named name more).mapM dec <;>
            simp [Except.map, Except.bind, bind, pure, Except.pure]
    · have hnamed : named name (.element run tag inner close more) = named name more := by
        simp [named, Content.elements, hname]
      have hothers : othersOf name (.element run tag inner close more) =
          tag.toTag :: othersOf name more := by
        simp [othersOf, Content.elements, hname]
      rw [hnamed] at h ⊢
      rw [hothers]
      obtain ⟨events, hforest, hlength, hmore⟩ := ih h
      obtain ⟨inside, hbalanced, hinside, htake⟩ := exists_takeElement e
      refine ⟨textEvents run ++ (.start tag.toTag :: inside ++ .finish tag.name.1 :: events),
        (hforest.element tag.toTag hbalanced).textEvents_append run, ?_, ?_⟩
      · have hrun := length_textEvents_le run
        have hinside : inside.length ≤ inner.markup.length := hinside
        simp only [Content.markup, List.length_append, List.length_cons]
        omega
      · intro ending rest items passed fuel hfuel
        rw [Content.markup_element] at hfuel ⊢
        obtain ⟨fuel', hfuel', hrun⟩ := listItems_run_other run e _ hname (htake ending _) (by simp) hfuel
        rw [hrun, hmore ending rest items _ fuel' hfuel']
        simp [e]

end

/-! ### Records with a list -/

/-- A record knows its children of one name, as a list. -/
structure TakesList (schema : Schema σ) (child : String) (item : Tag → Reading α)
    (get : σ → Option (List α)) (set : σ → Option (List α) → σ) : Prop where
  takeChild : ∀ s container name, schema.takeChild s container name =
    if name = child then
      some do pure (set s (← fieldOnce (get s) child (nextList container item)))
    else none
  takeText : ∀ s chars, schema.takeText s chars = .ok s
  get_set : ∀ s items, get (set s items) = items
  set_get : ∀ s, set s (get s) = s

variable {child : String} {item : Tag → Reading α} {get : σ → Option (List α)}
variable {set : σ → Option (List α) → σ} {dec : Element → Except Fault α}

/-- What a list holds: no list without a child of its name, and no two lists. The name of a list is the
full name of its first child. -/
def listOf (child : String) (dec : Element → Except Fault α) (elements : List Element) :
    Except Fault (Option (List α)) :=
  match elements.find? (·.localName = child) with
  | none => .ok none
  | some first => do
    let items ← (elements.filter (·.tag.name.1 = first.tag.name.1)).mapM dec
    if (elements.filter (·.tag.name.1 ≠ first.tag.name.1)).any (·.localName = child) then
      .error (.repeatedField child)
    else .ok (some items)

/-- Behind a list, all events that were passed over are read again, and another list is an error. -/
theorem children_forest (h : TakesList schema child item get set) {items : List α}
    (hget : get s = some items) {events : List Event} {tags : List Tag} (hforest : Forest events tags)
    (tag : Tag) (r : Reader) (parent : List Char) (hfuel : events.length < fuel) :
    children schema tag s fuel ⟨r, events ++ [.finish parent]⟩ =
      if tags.any (fun t => String.ofList (localName t.name) = child) then
        .error (.repeatedField child)
      else .ok (s, ⟨r, []⟩) := by
  induction hforest generalizing fuel with
  | nil =>
    obtain ⟨fuel, rfl⟩ : ∃ n, fuel = n + 1 := ⟨fuel - 1, by omega⟩
    rfl
  | text chars hforest ih =>
    obtain ⟨fuel, rfl⟩ : ∃ n, fuel = n + 1 := ⟨fuel - 1, by omega⟩
    rw [List.cons_append, children_text, h.takeText]
    exact ih (Nat.lt_of_succ_lt_succ hfuel)
  | @element inner events tags t hbalanced hforest ih =>
    obtain ⟨fuel, rfl⟩ : ∃ n, fuel = n + 1 := ⟨fuel - 1, by omega⟩
    have hqueue : .start t :: inner ++ .finish t.name :: events ++ [.finish parent] =
        .start t :: (inner ++ .finish t.name :: (events ++ [.finish parent])) := by simp
    have htake := h.takeChild s tag.name (String.ofList (localName t.name))
    rw [hqueue, List.any_cons]
    by_cases hchild : String.ofList (localName t.name) = child
    · rw [if_pos hchild] at htake
      rw [children_known htake, bind_apply, hget, if_pos (by simp [hchild])]
      rfl
    · rw [if_neg hchild] at htake
      have hlength : events.length < fuel := by
        simp only [List.length_append, List.length_cons] at hfuel
        omega
      have hskip : skipElement t.name ⟨r, inner ++ .finish t.name :: (events ++ [.finish parent])⟩ =
          .ok ((), ⟨r, events ++ [.finish parent]⟩) := by
        have hpass : passQueued t.name 0 (inner ++ .finish t.name :: (events ++ [.finish parent])) =
            .inl (events ++ [.finish parent]) := by
          rw [hbalanced, passQueued, if_pos rfl]
        rw [skipElement, hpass]
      rw [children_unknown htake, hskip]
      refine (ih hlength).trans ?_
      simp [hchild]

/-- The list that an element starts goes on to the end of the content. -/
theorem exists_nextList (e : Element) (more : Content) (container parent : List Char)
    (h : ∀ e : Element, KeepsTo (item e.tag.toTag) e.behindStart (dec e)) :
    ∃ events, Forest events (othersOf e.tag.name.1 more) ∧ events.length ≤ more.markup.length ∧
      ∀ ending rest, nextList container item
          ⟨before ending true (e.behindStart ++ (more.markup ++ .finish parent :: rest)),
            [.start e.tag.toTag]⟩ =
        ((e :: named e.tag.name.1 more).mapM dec).map fun found =>
          (found, ⟨before ending true rest, events ++ [.finish parent]⟩) := by
  obtain ⟨events, hforest, hlength, hmore⟩ := exists_listItems container e.tag.name.1 more parent
    fun e _ => h e
  refine ⟨events, hforest, hlength, fun ending rest => ?_⟩
  let behind := more.markup ++ .finish parent :: rest
  have hnext : nextList container item ⟨before ending true (e.behindStart ++ behind), [.start e.tag.toTag]⟩ =
      listItems container e.tag.name.1 item [] []
        ((before ending true (e.behindStart ++ behind)).markup.length + 3 + 1)
        ⟨before ending true (e.behindStart ++ behind), [.start e.tag.toTag]⟩ := rfl
  have hfuel : (before ending true behind).markup.length <
      (before ending true (e.behindStart ++ behind)).markup.length + 3 := by
    have hlt := Reader.length_before_lt ending true (show behind ≠ [] by simp [behind])
    have hle := Reader.length_le_length_before ending true e.inner.markup
      (.finish e.tag.name.1 behind)
    rw [List.length_cons] at hle
    rw [e.behindStart_append]
    omega
  have hname : e.tag.toTag.name = e.tag.name.1 := rfl
  rw [hnext, listItems_item hname, h e, List.mapM_cons]
  cases hdec : dec e with
  | error fault => rfl
  | ok a =>
    refine (hmore ending rest [a] [] _ hfuel).trans ?_
    cases (named e.tag.name.1 more).mapM dec <;> simp [Except.map, bind, Except.bind, pure, Except.pure]

theorem listOf_cons_other {e : Element} (h : e.localName ≠ child) (elements : List Element) :
    listOf child dec (e :: elements) = listOf child dec elements := by
  rw [listOf, List.find?_cons_of_neg (by simpa using h), listOf]
  split
  · rfl
  case h_2 first hfirst =>
    have hlocal : first.localName = child := by simpa using List.find?_some hfirst
    have hname : e.tag.name.1 ≠ first.tag.name.1 := by
      intro hname
      exact h (by rw [← hlocal, Element.localName, hname]; rfl)
    simp [hname, h]

theorem listOf_cons_child {e : Element} (h : e.localName = child) (more : Content) :
    listOf child dec (e :: more.elements) = (do
      let items ← (e :: named e.tag.name.1 more).mapM dec
      if (othersOf e.tag.name.1 more).any (fun t => String.ofList (localName t.name) = child) then
        .error (.repeatedField child)
      else .ok (some items)) := by
  rw [listOf, List.find?_cons_of_pos (by simpa using h)]
  simp [named, othersOf, List.any_map]
  rfl

/-- When all children of that name have it without a prefix, the list is one of them all. -/
theorem listOf_map_getD (dec : Element → Except Fault α) {elements : List Element}
    (h : ∀ e ∈ elements.filter (·.localName = child), e.tag.name.1 = child.toList) :
    (listOf child dec elements).map (·.getD []) = (elements.filter (·.localName = child)).mapM dec := by
  rw [listOf]
  split
  case h_1 hnone =>
    have hempty : elements.filter (·.localName = child) = [] :=
      List.filter_eq_nil_iff.2 (List.find?_eq_none.1 hnone)
    rw [hempty]
    rfl
  case h_2 first hfirst =>
    have hlocal : first.localName = child := by simpa using List.find?_some hfirst
    have hmem : first ∈ elements.filter (·.localName = child) :=
      List.mem_filter.2 ⟨List.mem_of_find?_eq_some hfirst, decide_eq_true hlocal⟩
    have hname {e : Element} (he : e ∈ elements) :
        e.tag.name.1 = first.tag.name.1 ↔ e.localName = child := by
      constructor
      · intro hname
        rw [← hlocal, Element.localName, hname]
        rfl
      · intro hchild
        rw [h e (List.mem_filter.2 ⟨he, decide_eq_true hchild⟩), h first hmem]
    have hnamed : elements.filter (·.tag.name.1 = first.tag.name.1) =
        elements.filter (·.localName = child) :=
      List.filter_congr fun e he => decide_eq_decide.2 (hname he)
    have hothers : (elements.filter (·.tag.name.1 ≠ first.tag.name.1)).any (·.localName = child) =
        false := by
      rw [List.any_eq_false]
      intro e he
      obtain ⟨hmem, hne⟩ := List.mem_filter.1 he
      simpa [← hname hmem] using hne
    rw [hnamed, hothers]
    cases (elements.filter (·.localName = child)).mapM dec <;> rfl

/-- The children of a record with a list are that list. -/
theorem children_list (h : TakesList schema child item get set)
    (hitem : ∀ e : Element, KeepsTo (item e.tag.toTag) e.behindStart (dec e)) (c : Content)
    (parent : List Char) (hget : get s = none)
    (hfuel : (before ending trims (c.markup ++ .finish parent :: rest)).markup.length < fuel) :
    children schema tag s fuel ⟨before ending trims (c.markup ++ .finish parent :: rest), []⟩ =
      (listOf child dec c.elements).map fun items => (set s items, ⟨before ending true rest, []⟩) := by
  have hset : set s none = s := by rw [← hget, h.set_get]
  induction c generalizing trims fuel with
  | last run =>
    obtain ⟨fuel', hfuel', hrun⟩ := children_run _ _ _ _ run.isText (.finish parent rest) hfuel
    obtain ⟨fuel', rfl⟩ : ∃ n, fuel' = n + 1 := ⟨fuel' - 1, by omega⟩
    rw [Content.markup, hrun, takeRun_eq_ok h.takeText]
    simp only [Content.elements, listOf, List.find?_nil, Except.map, hset]
    rfl
  | element run tag' inner close more _ ih =>
    let e : Element := ⟨tag', inner, close⟩
    rw [Content.markup_element] at hfuel ⊢
    obtain ⟨fuel', hfuel', hrun⟩ := children_run_element run e _ hfuel
    rw [hrun, takeRun_eq_ok h.takeText, Except.bind, Content.elements]
    have htake := h.takeChild s tag.name e.localName
    by_cases hchild : e.localName = child
    -- The list runs to the end of the content, and what it left queued is read once more.
    · rw [if_pos hchild] at htake
      obtain ⟨events, hforest, hlength, hlist⟩ := exists_nextList e more tag.name parent hitem
      have hread (c : Cursor) : (do pure (set s (← fieldOnce (get s) child (nextList tag.name item)))) c =
          (nextList tag.name item c).map fun found => (set s (some found.1), found.2) := by
        rw [hget, fieldOnce, bind_apply, bind_apply]
        cases nextList tag.name item c <;> rfl
      rw [children_start, children_known htake, listOf_cons_child hchild, hread, hlist]
      cases (e :: named e.tag.name.1 more).mapM dec with
      | error fault => rfl
      | ok items =>
        have hlast := children_forest h (h.get_set s (some items)) hforest tag
          (before ending true rest) parent (show events.length < fuel' by simp at hfuel'; omega)
        refine hlast.trans ?_
        simp only [bind, Except.bind]
        split <;> rfl
    · rw [if_neg hchild] at htake
      obtain ⟨trims', helement⟩ := children_element (TakesChild.unknown htake)
      rw [helement, listOf_cons_other hchild]
      exact ih ((Reader.length_before_lt _ _ (by simp)).trans hfuel')

/-- A record with a list keeps to its element, and is made of the attributes and that list. -/
theorem list_element (h : TakesList schema child item get set)
    (hitem : ∀ e : Element, KeepsTo (item e.tag.toTag) e.behindStart (dec e)) (e : Element)
    (hget : ∀ s', attributes schema e.tag.toTag s = .ok s' → get s' = none) :
    KeepsTo (element schema s e.tag.toTag) e.behindStart
      ((attributes schema e.tag.toTag s).bind fun s => (listOf child dec e.inner.elements).map (set s)) := by
  intro ending rest
  rw [element_apply]
  cases hattributes : attributes schema e.tag.toTag s with
  | error fault => rfl
  | ok s' =>
    rw [e.behindStart_append]
    refine (children_list h hitem e.inner e.tag.name.1 (hget s' hattributes) ?_).trans ?_
    · simp only [Cursor.size]
      omega
    · rw [Except.bind]
      cases listOf child dec e.inner.elements <;> rfl

end Reading

end Proctor.Xml
