import Proctor.Xml.Attribute
import Proctor.Xml.Event

/-!
Reading records from elements. A record takes the attributes and the children that it knows, each at
most once, and passes over all others. A list takes all children of one name, also when others stand
between them; those others are read again after the list.
-/

namespace Proctor.Xml

/-- A reader and the events to read again before it. -/
structure Cursor where
  reader : Reader
  queue : List Event
  deriving DecidableEq, Repr

namespace Cursor

def ofScan (s : Scan) : Cursor := ⟨.ofScan s, []⟩

/-- More than the number of events that are left. -/
def size (c : Cursor) : Nat :=
  c.reader.markup.length + c.queue.length + 3

end Cursor

abbrev Reading := StateT Cursor (Except Fault)

namespace Reading

variable {α σ : Type}

def fail (fault : Fault) : Reading α :=
  fun _ => .error fault

def take : Reading Event := fun c =>
  match c.queue with
  | e :: queue => .ok (e, { c with queue })
  | [] => do
    let (e, reader) ← c.reader.next
    .ok (e, { c with reader })

def peek : Reading Event := fun c =>
  match c.queue with
  | e :: _ => .ok (e, c)
  | [] => do
    let (e, reader) ← c.reader.next
    .ok (e, { reader, queue := [e] })

/-- Events to read again, before all others. -/
def putBack (events : List Event) : Reading Unit := fun c =>
  .ok ((), { c with queue := events ++ c.queue })

/-- What is left of the queue behind the end of an element, or how many elements of its name the end
of the queue leaves open in it. -/
def passQueued (name : List Char) (depth : Nat) : List Event → List Event ⊕ Nat
  | [] => .inr depth
  | .start tag :: rest => passQueued name (if tag.name = name then depth + 1 else depth) rest
  | .finish found :: rest =>
    if found = name then
      match depth with
      | 0 => .inl rest
      | depth + 1 => passQueued name depth rest
    else passQueued name depth rest
  | _ :: rest => passQueued name depth rest

def skipRepeatedly (name : List Char) : Nat → Reader → Except Fault Reader
  | 0, r => .ok r
  | count + 1, r => do skipRepeatedly name count (← r.skipElement name)

/-- Passes over the element whose start was taken. -/
def skipElement (name : List Char) : Reading Unit := fun c =>
  match passQueued name 0 c.queue with
  | .inl queue => .ok ((), { c with queue })
  | .inr depth => do
    .ok ((), { reader := ← skipRepeatedly name (depth + 1) c.reader, queue := [] })

/-- Takes the events of the element whose start is the last of `taken`, up to its end. -/
def takeElement (name : List Char) (taken : List Event) (depth : Nat) :
    Nat → Reading (List Event)
  | 0 => pure taken
  | fuel + 1 => do
    let e ← take
    match e with
    | .start tag =>
      takeElement name (e :: taken) (if tag.name = name then depth + 1 else depth) fuel
    | .finish found =>
      if found = name then
        match depth with
        | 0 => pure (e :: taken)
        | depth + 1 => takeElement name (e :: taken) depth fuel
      else takeElement name (e :: taken) depth fuel
    | .eof => pure (e :: taken)
    | .text _ => takeElement name (e :: taken) depth fuel

def size : Reading Nat := fun c => .ok (c.size, c)

/-- Reads all children with the name of the list, and puts back all others, which are in `passed` in
reverse. -/
def listItems (container name : List Char) (item : Tag → Reading α) (items : List α)
    (passed : List Event) : Nat → Reading (List α)
  | 0 => fail (Reader.missingEnd container)
  | fuel + 1 => do
    match ← peek with
    | .start tag =>
      if tag.name = name then
        let _ ← take
        let a ← item tag
        listItems container name item (a :: items) passed fuel
      else
        let e ← take
        let passed ← takeElement tag.name (e :: passed) 0 (← size)
        listItems container name item items passed fuel
    | .text _ =>
      let e ← take
      listItems container name item items (e :: passed) fuel
    | .finish _ =>
      putBack passed.reverse
      pure items.reverse
    | .eof => fail (Reader.missingEnd container)

/-- Reads the children of an element that have the name of the next one. -/
def list (container : List Char) (name : List Char) (item : Tag → Reading α) :
    Reading (List α) := do
  listItems container name item [] [] (← size)

/-- Reads the text of an element whose start is next; it must hold nothing but text. -/
def textElement : Reading String := do
  match ← take with
  | .start tag =>
    match ← take with
    | .finish _ => pure ""
    | .text chars =>
      match ← take with
      | .start inner => fail (.unexpectedStart (String.ofList inner.name))
      | .eof => fail (Reader.missingEnd tag.name)
      | _ => pure (String.ofList chars)
    | .start inner => fail (.unexpectedStart (String.ofList inner.name))
    | .eof => fail (Reader.missingEnd tag.name)
  | _ => fail .unexpectedEnd

/-- How a record takes its parts. Each function may fail when the part was there before; `takeChild` gets
the name of the record's own element and the local name of the child, gives none for a child that the
record does not know, and otherwise reads it. -/
structure Schema (σ : Type) where
  takeAttribute : σ → String → List Char → Except Fault σ
  takeChild : σ → List Char → String → Option (Reading σ)
  takeText : σ → List Char → Except Fault σ

def lift (r : Except Fault α) : Reading α := fun c => r.map (·, c)

def attributes (schema : Schema σ) (tag : Tag) (s : σ) : Except Fault σ := do
  let (attributes, fault) := tag.attributes
  let s ← attributes.foldlM (fun s a => schema.takeAttribute s a.fieldName a.value) s
  match fault with
  | some fault => .error (.attribute fault)
  | none => .ok s

def children (schema : Schema σ) (tag : Tag) (s : σ) : Nat → Reading σ
  | 0 => fail (Reader.missingEnd tag.name)
  | fuel + 1 => do
    match ← peek with
    | .text chars =>
      let _ ← take
      children schema tag (← lift (schema.takeText s chars)) fuel
    | .start child =>
      match schema.takeChild s tag.name (String.ofList (localName child.name)) with
      | some read => children schema tag (← read) fuel
      | none =>
        let _ ← take
        skipElement child.name
        children schema tag s fuel
    | .finish _ =>
      let _ ← take
      pure s
    | .eof => fail (Reader.missingEnd tag.name)

/-- Reads the element whose start was taken, attributes before children. -/
def element (schema : Schema σ) (s : σ) (tag : Tag) : Reading σ := do
  let s ← lift (attributes schema tag s)
  children schema tag s (← size)

/-- Reads the element whose start is next. -/
def nextElement (schema : Schema σ) (s : σ) : Reading σ := do
  match ← take with
  | .start tag => element schema s tag
  | _ => fail .unexpectedEnd

/-- Passes over blank text. -/
def skipBlankText : Nat → Reading Unit
  | 0 => pure ()
  | fuel + 1 => do
    match ← peek with
    | .text chars =>
      if chars.all isBlank then
        let _ ← take
        skipBlankText fuel
      else pure ()
    | _ => pure ()

/-- Reads a document whose one element is a record of a named kind. -/
def document (kind : String) (schema : Schema σ) (s : σ) : Reading σ := do
  skipBlankText (← size)
  match ← take with
  | .start tag => element schema s tag
  | .text chars => fail (.wrongText (String.ofList chars) kind)
  | _ => fail .unexpectedEnd

def run (read : Reading α) (scan : Scan) : Except Fault α :=
  (read (.ofScan scan)).map (·.1)

/-- The value of a field that must not have been there before. -/
def once (field : Option α) (name : String) (value : Except Fault α) : Except Fault (Option α) :=
  match field with
  | some _ => .error (.repeatedField name)
  | none => value.map some

/-- Reads a field that must not have been there before. -/
def fieldOnce (field : Option α) (name : String) (read : Reading α) : Reading (Option α) :=
  match field with
  | some _ => fail (.repeatedField name)
  | none => do pure (some (← read))

/-- Reads the list that the next child starts. -/
def nextList (container : List Char) (item : Tag → Reading α) : Reading (List α) := do
  match ← peek with
  | .start tag => list container tag.name item
  | _ => fail .unexpectedEnd

/-- The text of an attribute, with its entities resolved. -/
def attributeText (value : List Char) : Except Fault String :=
  ((Entity.unescape value).mapError .entity).map String.ofList

/-- An attribute that counts; entities in it are not resolved. -/
def attributeCount (value : List Char) : Except Fault Nat :=
  let written := String.ofList value
  match Decimal.read? UInt32.size written with
  | some n => .ok n
  | none => .error (.wrongText written "u32")

end Reading

end Proctor.Xml
