import Proctor.Proofs.Lists
import Proctor.Xml.Attribute
import Proctor.Xml.Entity

/-!
Well-formed documents as trees, and their text in every spelling: quotes and blanks in tags, references
for characters, comments, instructions and CDATA between texts, elements without content in both forms.
Characters and attributes are read back from all their spellings.

Main statements: `unescape_chars`, `attributes_toTag`.
-/

namespace Proctor.Xml

/-! ### Trees -/

/-- Digits of a radix that spell a number, with zeros in front at will. -/
inductive Spells (radix : Nat) : List Char → Nat → Prop
  | first {c : Char} {d : Nat} (h : Hex.value? c = some d) (hd : d < radix) : Spells radix [c] d
  | more {cs : List Char} {n : Nat} {c : Char} {d : Nat} (hcs : Spells radix cs n)
    (h : Hex.value? c = some d) (hd : d < radix) : Spells radix (cs ++ [c]) (n * radix + d)

/-- The ways to write a character: by itself, by its name, or by its number. -/
inductive Writes : List Char → Char → Prop
  | plain {c : Char} (hangle : c ≠ '<') (hand : c ≠ '&') : Writes [c] c
  | named {name : List Char} {c : Char} (h : Entity.named? name = some c) :
    Writes ('&' :: name ++ [';']) c
  | decimal {digits : List Char} {c : Char} (h : Spells 10 digits c.toNat) (hc : c ≠ '\x00') :
    Writes ('&' :: '#' :: digits ++ [';']) c
  | hexadecimal {digits : List Char} {c : Char} (h : Spells 16 digits c.toNat) (hc : c ≠ '\x00') :
    Writes ('&' :: '#' :: 'x' :: digits ++ [';']) c

/-- A character in one of its spellings. -/
structure Glyph where
  written : List Char
  meaning : Char
  writes : Writes written meaning

namespace Glyph

/-- The text of glyphs as it is written. -/
def chars (gs : List Glyph) : List Char :=
  gs.flatMap written

end Glyph

abbrev Blanks := { cs : List Char // ∀ c ∈ cs, isBlank c = true }

/-- Characters that have no place in a name. -/
def breaksName (c : Char) : Bool :=
  isBlank c || c ∈ ['<', '>', '/', '=', '"', '\'', '!', '?']

abbrev Name := { cs : List Char // cs ≠ [] ∧ ∀ c ∈ cs, breaksName c = false }

/-- An attribute with the blanks before it and around its equals sign. -/
structure WrittenAttribute where
  gap : Blanks
  name : Name
  before : Blanks
  after : Blanks
  quote : Char
  value : List Glyph
  gap_ne_nil : gap.1 ≠ []
  isQuote : quote = '"' ∨ quote = '\''
  quote_not_mem : quote ∉ Glyph.chars value

/-- A start tag, with the blanks at its end. -/
structure StartTag where
  name : Name
  attributes : List WrittenAttribute
  trail : Blanks
  nodup : (attributes.map (·.name.1)).Nodup

/-- What is passed over wherever it stands. -/
inductive Aside
  | comment (cs : List Char) (h : ¬['-', '-'] <:+: cs ++ ['-'])
  | instruction (cs : List Char) (h : ¬['?', '>'] <:+: '?' :: cs)

/-- What can stand between two pieces of one text. -/
inductive Insert
  | aside (a : Aside)
  | cdata (cs : List Char) (h : ¬[']', ']', '>'] <:+: cs)

/-- Text without elements in it, written in pieces. -/
structure Run where
  first : List Glyph
  more : List (Insert × List Glyph)

/-- How an element ends: short when it holds nothing and so wants it, or with a tag and blanks in it. -/
structure Close where
  short : Bool
  gap : Blanks

/-- What an element holds: a last text, or a text, an element and all that follows. -/
inductive Content
  | last (run : Run)
  | element (run : Run) (tag : StartTag) (inner : Content) (close : Close) (rest : Content)

structure Element where
  tag : StartTag
  inner : Content
  close : Close

/-- The elements in a content, without those inside them. -/
def Content.elements : Content → List Element
  | last _ => []
  | element _ tag inner close rest => ⟨tag, inner, close⟩ :: rest.elements

/-- Angle brackets match, behind as many open ones as `depth`. -/
def balances : Nat → List Char → Bool
  | depth, [] => depth = 0
  | depth, c :: cs =>
    if c = '<' then balances (depth + 1) cs
    else if c = '>' then
      match depth with
      | 0 => false
      | depth + 1 => balances depth cs
    else balances depth cs

/-- What can stand before the root: asides, and a declaration of a document type. -/
inductive Heading
  | aside (a : Aside)
  | doctype (cs : List Char) (hne : cs.all isBlank = false) (h : balances 0 cs = true)

structure Prolog where
  hasMark : Bool
  first : Blanks
  more : List (Heading × Blanks)

/-- A document: what comes before its root, the root, and anything at all behind it. -/
structure Document where
  prolog : Prolog
  root : Element
  epilog : List Char

/-! ### Their text -/

namespace WrittenAttribute

def chars (a : WrittenAttribute) : List Char :=
  a.gap.1 ++ a.name.1 ++ a.before.1 ++ '=' :: a.after.1 ++ a.quote :: Glyph.chars a.value ++ [a.quote]

/-- The attribute as readers see it. -/
def toAttribute (a : WrittenAttribute) : Attribute :=
  ⟨a.name.1, Glyph.chars a.value⟩

end WrittenAttribute

namespace StartTag

/-- All between the name and the end of the tag. -/
def tail (t : StartTag) : List Char :=
  t.attributes.flatMap WrittenAttribute.chars ++ t.trail.1

def toTag (t : StartTag) : Tag :=
  ⟨t.name.1, t.tail⟩

end StartTag

def Aside.chars : Aside → List Char
  | comment cs _ => '<' :: "!--".toList ++ cs ++ "-->".toList
  | instruction cs _ => '<' :: '?' :: cs ++ "?>".toList

namespace Insert

def chars : Insert → List Char
  | aside a => a.chars
  | cdata cs _ => '<' :: "![CDATA[".toList ++ cs ++ "]]>".toList

def markup : Insert → Markup
  | aside _ => .passed
  | cdata cs _ => .cdata cs

end Insert

/-- The markup of a text; no text is no markup. -/
def textMarkup (cs : List Char) : List Markup :=
  if cs = [] then [] else [.text cs]

namespace Run

def chars (r : Run) : List Char :=
  Glyph.chars r.first ++ r.more.flatMap fun (insert, text) => insert.chars ++ Glyph.chars text

def markup (r : Run) : List Markup :=
  textMarkup (Glyph.chars r.first) ++
    r.more.flatMap fun (insert, text) => insert.markup :: textMarkup (Glyph.chars text)

def isEmpty (r : Run) : Bool :=
  r.first.isEmpty && r.more.isEmpty

end Run

/-- The text of an element, from that of its content. -/
def elementChars (tag : StartTag) (close : Close) (isEmpty : Bool) (inner : List Char) : List Char :=
  '<' :: tag.name.1 ++ tag.tail ++
    if isEmpty && close.short then "/>".toList
    else '>' :: inner ++ '<' :: '/' :: tag.name.1 ++ close.gap.1 ++ ['>']

namespace Content

def isEmpty : Content → Bool
  | last run => run.isEmpty
  | element .. => false

def chars : Content → List Char
  | last run => run.chars
  | element run tag inner close rest =>
    run.chars ++ elementChars tag close inner.isEmpty inner.chars ++ rest.chars

def markup : Content → List Markup
  | last run => run.markup
  | element run tag inner _ rest =>
    run.markup ++ .start tag.toTag :: inner.markup ++ .finish tag.name.1 :: rest.markup

end Content

namespace Element

def chars (e : Element) : List Char :=
  elementChars e.tag e.close e.inner.isEmpty e.inner.chars

/-- The name that a record knows the element by. -/
def localName (e : Element) : String :=
  String.ofList (Xml.localName e.tag.name.1)

/-- The markup behind the start tag. -/
def behindStart (e : Element) : List Markup :=
  e.inner.markup ++ [.finish e.tag.name.1]

end Element

namespace Heading

def chars : Heading → List Char
  | aside a => a.chars
  | doctype cs _ _ => '<' :: "!DOCTYPE".toList ++ cs ++ ['>']

def markup : Heading → Markup
  | aside _ => .passed
  | doctype .. => .doctype

end Heading

namespace Prolog

def chars (p : Prolog) : List Char :=
  p.first.1 ++ p.more.flatMap fun (heading, blanks) => heading.chars ++ blanks.1

def markup (p : Prolog) : List Markup :=
  textMarkup p.first.1 ++ p.more.flatMap fun (heading, blanks) => heading.markup :: textMarkup blanks.1

end Prolog

namespace Document

def chars (d : Document) : List Char :=
  (if d.prolog.hasMark then ['\uFEFF'] else []) ++ d.prolog.chars ++ d.root.chars ++ d.epilog

def text (d : Document) : String :=
  String.ofList d.chars

def bytes (d : Document) : Bytes :=
  Utf8.encode d.text

end Document

/-! ### Characters -/

namespace Spells

variable {radix n : Nat} {cs : List Char}

theorem exists_value (h : Spells radix cs n) : ∀ c ∈ cs, ∃ d, Hex.value? c = some d := by
  induction h with
  | first h => simpa using ⟨_, h⟩
  | more _ h _ ih =>
    intro c hc
    rcases List.mem_append.1 hc with hc | hc
    · exact ih c hc
    · obtain rfl := List.mem_singleton.1 hc
      exact ⟨_, h⟩

theorem number_append {a : Nat} {c : Char} (h : Entity.number radix a cs = .ok n) :
    Entity.number radix a (cs ++ [c]) = Entity.number radix n [c] := by
  induction cs generalizing a with
  | nil =>
    obtain rfl : a = n := Except.ok.inj h
    rfl
  | cons c' cs ih =>
    rw [Entity.number] at h
    rw [List.cons_append, Entity.number]
    cases hvalue : Hex.value? c' with
    | none => simp [hvalue] at h
    | some d =>
      simp only [hvalue] at h ⊢
      split at h
      case isFalse => cases h
      case isTrue hd =>
        split at h
        case isFalse => cases h
        case isTrue hsize => rw [if_pos hd, if_pos hsize, ih h]

/-- Digits that spell a number of 32 bits are read as it. -/
theorem number_eq (h : Spells radix cs n) (hn : n < UInt32.size) : Entity.number radix 0 cs = .ok n := by
  induction h with
  | first h hd => simp [Entity.number, h, hd, hn]
  | @more cs n c d hcs h hd ih =>
    have hle := Nat.le_mul_of_pos_right n (show 0 < radix by omega)
    rw [number_append (ih (by omega))]
    simp [Entity.number, h, hd, hn]

theorem eq_cons (h : Spells radix cs n) : ∃ c more, cs = c :: more := by
  cases h with
  | first => exact ⟨_, _, rfl⟩
  | more hcs => exact List.exists_cons_of_ne_nil (by simp)

theorem unsigned_eq (h : Spells radix cs n) (hn : n < UInt32.size) :
    Entity.unsigned radix cs = .ok n := by
  obtain ⟨c, more, rfl⟩ := h.eq_cons
  have hsign : ¬(c = '+' ∨ c = '-') := by
    obtain ⟨d, hd⟩ := h.exists_value c (.head _)
    rintro (rfl | rfl) <;> cases hd
  rw [Entity.unsigned, if_neg hsign, h.number_eq hn]

end Spells

namespace Entity

theorem toChar_eq {c : Char} (hc : c ≠ '\x00') :
    (if c.toNat = 0 then (.error .zero : Except ReferenceFault Char)
      else if h : c.toNat.isValidChar then .ok (Char.ofNatAux c.toNat h)
      else .error (.notACharacter c.toNat)) = .ok c := by
  have hzero : c.toNat ≠ 0 := fun h => hc (Char.toNat_inj.1 h)
  have hvalid : c.toNat.isValidChar := c.valid
  rw [if_neg hzero, dif_pos hvalid]
  rfl

theorem toNat_lt_size (c : Char) : c.toNat < UInt32.size :=
  c.val.toNat_lt

/-- Only an `x` in front makes digits hexadecimal. -/
theorem unsigned_of_no_mark (digits : List Char) (next : Nat → Except ReferenceFault Char) :
    (∀ more, digits ≠ 'x' :: more) → (match digits with
      | 'x' :: digits => (unsigned 16 digits).bind next
      | digits => (unsigned 10 digits).bind next) = (unsigned 10 digits).bind next := by
  intro h
  split
  case h_1 more => exact absurd rfl (h more)
  case h_2 => rfl

/-- A character is read from its number in decimal digits. -/
theorem referenced_decimal {digits : List Char} {c : Char} (h : Spells 10 digits c.toNat)
    (hc : c ≠ '\x00') : referenced digits = .ok c := by
  refine (unsigned_of_no_mark digits _ ?_).trans ?_
  · rintro more rfl
    obtain ⟨d, hd⟩ := h.exists_value 'x' (.head _)
    cases hd
  · rw [h.unsigned_eq (toNat_lt_size c)]
    exact toChar_eq hc

theorem referenced_hexadecimal {digits : List Char} {c : Char} (h : Spells 16 digits c.toNat)
    (hc : c ≠ '\x00') : referenced ('x' :: digits) = .ok c := by
  change (unsigned 16 digits).bind _ = _
  rw [h.unsigned_eq (toNat_lt_size c)]
  exact toChar_eq hc

/-- A character can be read from what stands between `&` and `;`, wherever that is. -/
theorem unescapeFrom_inside (size first position : Nat) (read name cs : List Char)
    {body : List Char} {c : Char} (hbody : ∀ c ∈ body, c ≠ ';' ∧ c ≠ '&')
    (h : ∀ first last, resolve first last (name.reverse ++ body) = .ok c) :
    ∃ position', unescapeFrom size read position (.inside first name) (body ++ ';' :: cs) =
      unescapeFrom size (c :: read) position' .plain cs := by
  induction body generalizing position name with
  | nil =>
    rw [List.append_nil] at h
    exact ⟨position + 1, by rw [List.nil_append, unescapeFrom, if_pos rfl, h]⟩
  | cons b body ih =>
    obtain ⟨hb, hand⟩ := hbody b (.head _)
    obtain ⟨position', h'⟩ := ih (position + b.utf8Size) (b :: name)
      (fun c hc => hbody c (.tail _ hc)) (by simpa using h)
    exact ⟨position', by rw [List.cons_append, unescapeFrom, if_neg hb, if_neg hand, h']⟩

end Entity

namespace Writes

variable {written : List Char} {c : Char}

/-- A character that is not written by itself is behind an ampersand, and can be resolved. -/
theorem eq_self_or (h : Writes written c) : written = [c] ∧ c ≠ '<' ∧ c ≠ '&' ∨
    ∃ body, written = '&' :: body ++ [';'] ∧ (∀ b ∈ body, b ≠ ';' ∧ b ≠ '&' ∧ b ≠ '<') ∧
      ∀ first last, Entity.resolve first last body = .ok c := by
  have digits {radix n : Nat} {cs : List Char} (h : Spells radix cs n) :
      ∀ b ∈ cs, b ≠ ';' ∧ b ≠ '&' ∧ b ≠ '<' := by
    intro b hb
    obtain ⟨d, hd⟩ := h.exists_value b hb
    refine ⟨?_, ?_, ?_⟩ <;> rintro rfl <;> cases hd
  cases h with
  | plain hangle hand => exact .inl ⟨rfl, hangle, hand⟩
  | @named name c h =>
    have hname : name ∈ ["lt".toList, "gt".toList, "amp".toList, "apos".toList, "quot".toList] := by
      by_contra hname
      simp only [List.mem_cons, not_or] at hname
      simp only [Entity.named?, hname, if_false] at h
      cases h
    have hplain : ∀ name ∈ ["lt".toList, "gt".toList, "amp".toList, "apos".toList, "quot".toList],
        ∀ b ∈ name, b ≠ ';' ∧ b ≠ '&' ∧ b ≠ '<' := by simp
    refine .inr ⟨name, rfl, hplain name hname, ?_⟩
    · intro first last
      rw [Entity.resolve, h]
      rintro digits rfl
      simp [Entity.named?] at h
  | @decimal ds c h hc =>
    refine .inr ⟨'#' :: ds, rfl, ?_, ?_⟩
    · simpa using digits h
    · intro first last
      rw [Entity.resolve, Entity.referenced_decimal h hc]
      rfl
  | @hexadecimal ds c h hc =>
    refine .inr ⟨'#' :: 'x' :: ds, rfl, ?_, ?_⟩
    · simpa using digits h
    · intro first last
      rw [Entity.resolve, Entity.referenced_hexadecimal h hc]
      rfl

theorem unescapeFrom_eq (h : Writes written c) (size position : Nat) (read cs : List Char) :
    ∃ position', Entity.unescapeFrom size read position .plain (written ++ cs) =
      Entity.unescapeFrom size (c :: read) position' .plain cs := by
  rcases h.eq_self_or with ⟨rfl, -, hand⟩ | ⟨body, rfl, hbody, hresolve⟩
  · exact ⟨position + c.utf8Size, by rw [List.singleton_append, Entity.unescapeFrom, if_neg hand]⟩
  · obtain ⟨position', h⟩ := Entity.unescapeFrom_inside size (position + 1) (position + 1) read [] cs
      (fun b hb => ⟨(hbody b hb).1, (hbody b hb).2.1⟩) hresolve
    refine ⟨position', ?_⟩
    rw [← h]
    simp [Entity.unescapeFrom]
    rfl

end Writes

namespace Glyph

theorem chars_cons (g : Glyph) (gs : List Glyph) : chars (g :: gs) = g.written ++ chars gs :=
  List.flatMap_cons ..

theorem ne_angle_of_mem (gs : List Glyph) : ∀ c ∈ chars gs, c ≠ '<' := by
  intro c hc
  obtain ⟨g, hg, hc⟩ := List.mem_flatMap.1 hc
  rcases g.writes.eq_self_or with ⟨h, hangle, -⟩ | ⟨body, h, hbody, -⟩
  · rw [h] at hc
    rwa [List.mem_singleton.1 hc]
  · rw [h] at hc
    simp at hc
    rcases hc with rfl | hc | rfl
    · decide
    · exact (hbody c hc).2.2
    · decide

/-- Unescaping gives the characters that were meant, in order. -/
theorem unescape_chars (gs : List Glyph) : Entity.unescape (chars gs) = .ok (gs.map meaning) := by
  have hfrom (size position : Nat) (read : List Char) :
      Entity.unescapeFrom size read position .plain (chars gs) =
        .ok (read.reverse ++ gs.map meaning) := by
    induction gs generalizing position read with
    | nil => simp [chars, Entity.unescapeFrom]
    | cons g gs ih =>
      obtain ⟨position', h⟩ := g.writes.unescapeFrom_eq size position read (chars gs)
      rw [chars_cons, h, ih]
      simp
  exact hfrom _ _ _

end Glyph

/-! ### Names -/

theorem Name.eq_cons (n : Name) : ∃ c cs, n.1 = c :: cs ∧ breaksName c = false := by
  obtain ⟨c, cs, h⟩ := List.exists_cons_of_ne_nil n.2.1
  exact ⟨c, cs, h, n.2.2 c (h ▸ .head _)⟩

theorem Name.isBlank_eq_false (n : Name) : ∀ c ∈ n.1, isBlank c = false := fun c hc =>
  (Bool.or_eq_false_iff.1 (n.2.2 c hc)).1

theorem Name.ne_equals (n : Name) : ∀ c ∈ n.1, c ≠ '=' := by
  rintro c hc rfl
  exact absurd (n.2.2 _ hc) (by decide)

/-! ### Attributes -/

namespace Attribute

theorem Place.skipBlanks_append (position : Nat) (b : Blanks) (rest : List Char)
    (h : ∀ c ∈ rest.head?, isBlank c = false) :
    ∃ position', Place.skipBlanks ⟨position, b.1 ++ rest⟩ = ⟨position', rest⟩ := by
  refine ⟨position + byteLength b.1, ?_⟩
  rw [Place.skipBlanks, span_append b.2 h]
  rfl

theorem keyAt_eq {first : Char} {more : List Char} (b : Blanks) (rest : List Char)
    (h : ∀ c ∈ more, c ≠ '=' ∧ isBlank c = false) (place : Place) :
    ∃ position', keyAt place first (more ++ b.1 ++ '=' :: rest) =
      .ok (first :: more, ⟨position', rest⟩) := by
  have hspan : (more ++ b.1 ++ '=' :: rest).span (fun c => c ≠ '=' && !isBlank c) =
      (more, b.1 ++ '=' :: rest) := by
    have hmore : ∀ c ∈ more, (decide (c ≠ '=') && !isBlank c) = true := fun c hc => by
      simp [(h c hc).1, (h c hc).2]
    rw [List.append_assoc]
    apply span_append hmore
    obtain ⟨blanks, hb⟩ := b
    cases blanks with
    | nil => simp
    | cons c blanks => simp [hb c (.head _)]
  obtain ⟨position', hskip⟩ := Place.skipBlanks_append
    (place.position + byteLength (first :: more)) b ('=' :: rest) (by simp [isBlank])
  refine ⟨position' + byteLength ['='], ?_⟩
  simp only [keyAt, hspan, Place.advance, hskip]

/-- A value ends at the quote that it started with. -/
theorem quotedValue_eq (position : Nat) (b : Blanks) (rest : List Char) {q : Char} {value : List Char}
    (hq : q = '"' ∨ q = '\'') (hvalue : q ∉ value) :
    ∃ position', quotedValue ⟨position, b.1 ++ q :: value ++ q :: rest⟩ =
      .ok (value, ⟨position', rest⟩) := by
  have hblank : isBlank q = false := by rcases hq with rfl | rfl <;> rfl
  obtain ⟨position', hskip⟩ := Place.skipBlanks_append position b (q :: value ++ q :: rest)
    (by simpa using hblank)
  have hspan : (value ++ q :: rest).span (· ≠ q) = (value, q :: rest) := by
    have hplain : ∀ c ∈ value, decide (c ≠ q) = true := fun c hc => by
      exact decide_eq_true (fun h => hvalue (h ▸ hc))
    exact span_append hplain (by simp)
  refine ⟨position' + byteLength (q :: value) + byteLength [q], ?_⟩
  rw [List.cons_append] at hskip
  rw [List.append_assoc, List.cons_append]
  simp only [quotedValue, hskip, if_pos hq, hspan, Place.advance]

/-- Written attributes are read one after the other, when their names differ from each other and from
those read. -/
theorem readFrom_eq {as : List WrittenAttribute} {trail : Blanks} {read : List Attribute}
    {keys : List (List Char × Nat)} {fuel : Nat} (hfuel : as.length < fuel)
    (hnodup : (as.map (·.name.1)).Nodup) (hkeys : ∀ a ∈ as, keys.lookup a.name.1 = none)
    (position : Nat) :
    readFrom read keys fuel ⟨position, as.flatMap WrittenAttribute.chars ++ trail.1⟩ =
      (read.reverse ++ as.map WrittenAttribute.toAttribute, none) := by
  induction as generalizing read keys fuel position with
  | nil =>
    obtain ⟨fuel, rfl⟩ : ∃ n, fuel = n + 1 := ⟨fuel - 1, by omega⟩
    obtain ⟨position', hskip⟩ := Place.skipBlanks_append position trail [] (by simp)
    rw [List.append_nil] at hskip
    simp [readFrom, hskip]
  | cons a as ih =>
    obtain ⟨fuel, rfl⟩ : ∃ n, fuel = n + 1 := ⟨fuel - 1, by simp at hfuel; omega⟩
    obtain ⟨first, more, hname, -⟩ := a.name.eq_cons
    have hfirst := a.name.isBlank_eq_false first (by simp [hname])
    have hmore : ∀ c ∈ more, c ≠ '=' ∧ isBlank c = false := fun c hc =>
      ⟨a.name.ne_equals c (by simp [hname, hc]), a.name.isBlank_eq_false c (by simp [hname, hc])⟩
    obtain ⟨hnew, hnodup⟩ := List.nodup_cons.1 hnodup
    let behind := as.flatMap WrittenAttribute.chars ++ trail.1
    let valued := a.after.1 ++ a.quote :: Glyph.chars a.value ++ a.quote :: behind
    obtain ⟨start, hskip⟩ := Place.skipBlanks_append position a.gap
      (first :: (more ++ a.before.1 ++ '=' :: valued)) (by simpa using hfirst)
    obtain ⟨middle, hkey⟩ := keyAt_eq a.before valued hmore
      ⟨start, first :: (more ++ a.before.1 ++ '=' :: valued)⟩
    obtain ⟨stop, hquoted⟩ := quotedValue_eq middle a.after behind a.isQuote a.quote_not_mem
    have hchars : (a :: as).flatMap WrittenAttribute.chars ++ trail.1 =
        a.gap.1 ++ first :: (more ++ a.before.1 ++ '=' :: valued) := by
      simp [WrittenAttribute.chars, hname, valued, behind]
    rw [hchars, readFrom]
    rw [← hname] at hkey
    simp only [hskip, hkey, hkeys a (.head _)]
    rw [hquoted]
    dsimp only
    rw [ih (by simp at hfuel; omega) hnodup]
    · simp [WrittenAttribute.toAttribute]
    · intro a' ha'
      have hne : a'.name.1 ≠ a.name.1 := fun h => hnew (List.mem_map.2 ⟨a', ha', h⟩)
      rw [List.lookup_cons, beq_false_of_ne hne]
      exact hkeys a' (.tail _ ha')

end Attribute

/-- The attributes of a written tag are all there. -/
theorem attributes_toTag (t : StartTag) :
    t.toTag.attributes = (t.attributes.map WrittenAttribute.toAttribute, none) := by
  have hlength : t.attributes.length < t.tail.length + 1 := by
    have hle : t.attributes.length ≤ (t.attributes.flatMap WrittenAttribute.chars).length := by
      induction t.attributes with
      | nil => exact Nat.zero_le _
      | cons a as ih =>
        simp only [List.flatMap_cons, List.length_append, List.length_cons, WrittenAttribute.chars]
        omega
    rw [StartTag.tail, List.length_append]
    omega
  exact Attribute.readFrom_eq hlength t.nodup (fun _ _ => rfl) _

/-! ### The plainest spelling -/

def isPlain (s : String) : Bool :=
  s.toList.all fun c => c ≠ '<' && c ≠ '&'

theorem isPlain_iff {s : String} : isPlain s = true ↔ ∀ c ∈ s.toList, c ≠ '<' ∧ c ≠ '&' := by
  simp [isPlain]

/-- Characters that are all written by themselves. -/
def Glyph.plain (s : String) (h : isPlain s = true) : List Glyph :=
  s.toList.attach.map fun c =>
    ⟨[c.1], c.1, .plain (isPlain_iff.1 h c.1 c.2).1 (isPlain_iff.1 h c.1 c.2).2⟩

@[simp] theorem Glyph.chars_plain (s : String) (h : isPlain s = true) : chars (plain s h) = s.toList := by
  simp [chars, plain, List.flatMap_map, List.flatMap_singleton']

def Blanks.none : Blanks := ⟨[], nofun⟩

def Blanks.one : Blanks := ⟨[' '], by simp [isBlank]⟩

def Name.plain (name : String) (h : name.toList ≠ [] ∧ name.toList.all (!breaksName ·) = true) : Name :=
  ⟨name.toList, h.1, by simpa using h.2⟩

def WrittenAttribute.plain (name value : String)
    (hname : name.toList ≠ [] ∧ name.toList.all (!breaksName ·) = true := by decide)
    (hvalue : isPlain value = true := by decide) (hquote : '"' ∉ value.toList := by decide) :
    WrittenAttribute where
  gap := .one
  name := .plain name hname
  before := .none
  after := .none
  quote := '"'
  value := Glyph.plain value hvalue
  gap_ne_nil := nofun
  isQuote := .inl rfl
  quote_not_mem := by rwa [Glyph.chars_plain]

def StartTag.plain (name : String) (attributes : List WrittenAttribute)
    (hname : name.toList ≠ [] ∧ name.toList.all (!breaksName ·) = true := by decide)
    (hnodup : (attributes.map (·.name.1)).Nodup := by decide) : StartTag :=
  ⟨.plain name hname, attributes, .none, hnodup⟩

namespace Content

def ofText (s : String) (h : isPlain s = true := by decide) : Content :=
  .last ⟨Glyph.plain s h, []⟩

def ofElements (elements : List Element) : Content :=
  elements.foldr (fun e rest => .element ⟨[], []⟩ e.tag e.inner e.close rest) (.last ⟨[], []⟩)

end Content

def Element.plain (tag : StartTag) (inner : Content) : Element :=
  ⟨tag, inner, true, .none⟩

def Document.plain (root : Element) : Document :=
  ⟨⟨false, .none, []⟩, root, []⟩

end Proctor.Xml
