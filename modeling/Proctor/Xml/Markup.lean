import Proctor.Xml.Fault

/-!
The markup of a document: tags, pieces of text, and what is only passed over. A scan gives all markup
up to the first fault; readers meet the fault only if they read that far.
-/

namespace Proctor.Xml

def isBlank (c : Char) : Bool :=
  c = ' ' || c = '\t' || c = '\r' || c = '\n'

/-- A start tag: its name, and what follows the name up to the end of the tag. -/
structure Tag where
  name : List Char
  tail : List Char
  deriving DecidableEq, Repr

/-- The part of a name after the first colon. -/
def localName (name : List Char) : List Char :=
  match name.dropWhile (· ≠ ':') with
  | [] => name
  | _ :: rest => rest

inductive Markup
  | start (tag : Tag)
  | finish (name : List Char)
  | text (chars : List Char)
  | cdata (chars : List Char)
  | doctype
  | passed
  deriving DecidableEq, Repr

/-- All markup before the end of the input or the fault. -/
structure Scan where
  markup : List Markup
  fault : Option Fault
  deriving DecidableEq, Repr

namespace Markup

/-- The content of a tag up to the first `>` outside quotes. `read` is in reverse. -/
def tagContent? (quote : Option Char) (read : List Char) :
    List Char → Option (List Char × List Char)
  | [] => none
  | c :: rest =>
    match quote with
    | some q => tagContent? (if c = q then none else some q) (c :: read) rest
    | none =>
      if c = '>' then some (read.reverse, rest)
      else tagContent? (if c = '"' ∨ c = '\'' then some c else none) (c :: read) rest

/-- A comment ends with `-->`, of which the dashes do not belong to its start. `size` counts the bytes
of `read`, which is in reverse. -/
def commentContent? (size : Nat) (read : List Char) : List Char → Option (List Char × List Char)
  | [] => none
  | c :: rest =>
    match c, read with
    | '>', '-' :: '-' :: _ =>
      if 4 < size then some (read.reverse, rest)
      else commentContent? (size + 1) (c :: read) rest
    | c, read => commentContent? (size + c.utf8Size) (c :: read) rest

def cdataContent? (read : List Char) : List Char → Option (List Char × List Char)
  | [] => none
  | c :: rest =>
    match c, read with
    | '>', ']' :: ']' :: _ => some (read.reverse, rest)
    | c, read => cdataContent? (c :: read) rest

/-- Up to the `>` that balances. -/
def doctypeContent? (depth : Nat) (read : List Char) : List Char → Option (List Char × List Char)
  | [] => none
  | c :: rest =>
    if c = '<' then doctypeContent? (depth + 1) (c :: read) rest
    else if c = '>' then
      match depth with
      | 0 => some (read.reverse, rest)
      | depth + 1 => doctypeContent? depth (c :: read) rest
    else doctypeContent? depth (c :: read) rest

/-- Up to the first `?>`; the question mark at the start may be the one that ends it. -/
def instructionContent? (read : List Char) : List Char → Option (List Char × List Char)
  | [] => none
  | c :: rest =>
    match c, read with
    | '>', '?' :: _ => some (read.reverse, rest)
    | c, read => instructionContent? (c :: read) rest

/-- What follows `lead` in a text that starts with it. -/
def after? : List Char → List Char → Option (List Char)
  | [], cs => some cs
  | _ :: _, [] => none
  | l :: lead, c :: cs => if l = c then after? lead cs else none

/-- One piece of markup, the names of the elements that are open after it, and the rest. -/
abbrev Step := Except Fault (List Markup × List (List Char) × List Char)

/-- Markup that starts with an exclamation mark, which is the first character of `input`. -/
def bang (opened : List (List Char)) (input : List Char) : Step :=
  match input with
  | '!' :: '[' :: _ =>
    match cdataContent? [] input with
    | some (content, rest) =>
      match after? "![CDATA[".toList content with
      | some chars => .ok ([.cdata (chars.take (chars.length - 2))], opened, rest)
      | none => .error (.unclosed .cdata)
    | none => .error (.unclosed .cdata)
  | '!' :: '-' :: _ =>
    match commentContent? 0 [] input with
    | some (content, rest) =>
      match after? "!--".toList content with
      | some _ => .ok ([.passed], opened, rest)
      | none => .error (.unclosed .comment)
    | none => .error (.unclosed .comment)
  | '!' :: c :: _ =>
    if c = 'D' ∨ c = 'd' then
      match doctypeContent? 0 [] input with
      | some (content, rest) =>
        if (content.take 8).map Char.toUpper = "!DOCTYPE".toList then
          if (content.drop 8).all isBlank then .error .namelessDoctype
          else .ok ([.doctype], opened, rest)
        else .error (.unclosed .doctype)
      | none => .error (.unclosed .doctype)
    else .error .unknownMarkup
  | _ => .error .unknownMarkup

/-- The name in an end tag, without the blanks behind it unless there is nothing else. -/
def endName (content : List Char) : List Char :=
  match content.reverse.dropWhile isBlank with
  | [] => content
  | kept => kept.reverse

/-- An end tag; it must close the element opened last. -/
def closing (opened : List (List Char)) (input : List Char) : Step :=
  match tagContent? none [] input with
  | none => .error (.unclosed .tag)
  | some (content, rest) =>
    let name := endName (content.drop 1)
    match opened with
    | [] => .error (.unmatchedEnd (String.ofList name))
    | expected :: opened =>
      if name = expected then .ok ([.finish name], opened, rest)
      else .error (.mismatchedEnd (String.ofList expected) (String.ofList name))

/-- A start tag. One that ends with a slash opens and closes its element. -/
def opening (opened : List (List Char)) (input : List Char) : Step :=
  match tagContent? none [] input with
  | none => .error (.unclosed .tag)
  | some (content, rest) =>
    let tagOf (content : List Char) : Tag :=
      let (name, tail) := content.span (!isBlank ·)
      ⟨name, tail⟩
    if content.getLast? = some '/' then
      let tag := tagOf content.dropLast
      .ok ([.start tag, .finish tag.name], opened, rest)
    else
      let tag := tagOf content
      .ok ([.start tag], tag.name :: opened, rest)

/-- Markup behind a `<`. -/
def afterAngle (opened : List (List Char)) (input : List Char) : Step :=
  match input with
  | [] => .error (.unclosed .tag)
  | '!' :: _ => bang opened input
  | '/' :: _ => closing opened input
  | '?' :: _ =>
    match instructionContent? [] input with
    | some (content, rest) =>
      if 1 < content.length then .ok ([.passed], opened, rest) else .error (.unclosed .instruction)
    | none => .error (.unclosed .instruction)
  | _ => opening opened input

/-- A piece of text up to the next `<`, or markup from one. -/
def next (opened : List (List Char)) (input : List Char) : Step :=
  match input with
  | '<' :: rest => afterAngle opened rest
  | input =>
    let (chars, rest) := input.span (· ≠ '<')
    .ok ([.text chars], opened, rest)

/-- Reads all markup after `read`, which is in reverse. Every step takes at least one character, so
`fuel` need not exceed the length of the input. -/
def scanFrom (read : List Markup) (opened : List (List Char)) : Nat → List Char → Scan
  | _, [] => ⟨read.reverse, none⟩
  | 0, _ => ⟨read.reverse, none⟩
  | fuel + 1, input =>
    match next opened input with
    | .error fault => ⟨read.reverse, some fault⟩
    | .ok (markup, opened, rest) => scanFrom (markup.reverse ++ read) opened fuel rest

end Markup

/-- Without the byte-order mark that may stand first. -/
def withoutMark : List Char → List Char
  | '\uFEFF' :: rest => rest
  | cs => cs

def scan (input : List Char) : Scan :=
  let input := withoutMark input
  Markup.scanFrom [] [] input.length input

/-- The local name of the first element, empty when there is none. -/
def rootName : Scan → Except Fault (List Char)
  | ⟨markup, fault⟩ =>
    match markup.findSome? fun | .start tag => some tag | _ => none with
    | some tag => .ok (localName tag.name)
    | none =>
      match fault with
      | some fault => .error fault
      | none => .ok []

end Proctor.Xml
