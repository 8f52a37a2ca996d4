import Proctor.Xml.Markup

/-!
The attributes in a start tag, as written, up to the first fault.
-/

namespace Proctor.Xml

/-- The value is as written between its quotes. -/
structure Attribute where
  name : List Char
  value : List Char
  deriving DecidableEq, Repr

namespace Attribute

def byteLength (cs : List Char) : Nat :=
  cs.foldl (fun n c => n + c.utf8Size) 0

/-- What is left of a tag, and the position of its first byte. -/
structure Place where
  position : Nat
  rest : List Char

def Place.advance (p : Place) (taken : List Char) (rest : List Char) : Place :=
  ⟨p.position + byteLength taken, rest⟩

def Place.skipBlanks (p : Place) : Place :=
  let (blanks, rest) := p.rest.span isBlank
  p.advance blanks rest

/-- The key at a place that is not blank, and the place behind its equals sign. The first character
belongs to the key in any case. -/
def keyAt (p : Place) (first : Char) (rest : List Char) :
    Except AttributeFault (List Char × Place) :=
  let (more, rest) := rest.span fun c => c ≠ '=' && !isBlank c
  let name := first :: more
  let p := (p.advance name rest).skipBlanks
  match p.rest with
  | '=' :: rest => .ok (name, p.advance ['='] rest)
  | _ => .error (.expectedEquals p.position)

/-- The quoted value at a place, and the place behind it. -/
def quotedValue (p : Place) : Except AttributeFault (List Char × Place) :=
  let p := p.skipBlanks
  match p.rest with
  | [] => .error (.expectedValue p.position)
  | quote :: rest =>
    if quote = '"' ∨ quote = '\'' then
      let (chars, rest) := rest.span (· ≠ quote)
      let p := p.advance (quote :: chars) rest
      match p.rest with
      | [] => .error (.unclosedValue p.position quote)
      | _ :: rest => .ok (chars, p.advance [quote] rest)
    else .error (.unquotedValue p.position)

/-- Reads the attributes behind those in `read`, which is in reverse; `keys` holds the keys so far and
their positions. -/
def readFrom (read : List Attribute) (keys : List (List Char × Nat)) :
    Nat → Place → List Attribute × Option AttributeFault
  | 0, _ => (read.reverse, none)
  | fuel + 1, p =>
    let p := p.skipBlanks
    match p.rest with
    | [] => (read.reverse, none)
    | first :: rest =>
      match keyAt p first rest with
      | .error fault => (read.reverse, some fault)
      | .ok (name, behind) =>
        match keys.lookup name with
        | some previous => (read.reverse, some (.repeated p.position previous))
        | none =>
          match quotedValue behind with
          | .error fault => (read.reverse, some fault)
          | .ok (chars, behind) =>
            readFrom (⟨name, chars⟩ :: read) ((name, p.position) :: keys) fuel behind

/-- A declaration of a namespace. -/
def isDeclaration (name : List Char) : Bool :=
  match Markup.after? "xmlns".toList name with
  | some [] => true
  | some (':' :: _) => true
  | _ => false

/-- The name that a record knows an attribute by: the local one, except that declarations keep
theirs. -/
def fieldName (a : Attribute) : String :=
  String.ofList (if isDeclaration a.name then a.name else localName a.name)

end Attribute

/-- The attributes of a tag in order, up to the first fault. -/
def Tag.attributes (t : Tag) : List Attribute × Option AttributeFault :=
  Attribute.readFrom [] [] (t.tail.length + 1) ⟨Attribute.byteLength t.name, t.tail⟩

end Proctor.Xml
