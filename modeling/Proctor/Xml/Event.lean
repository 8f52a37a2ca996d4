import Proctor.Xml.Entity
import Proctor.Xml.Markup

/-!
Events of a document: tags, and text that is joined over comments and CDATA, with its entities
resolved. Blanks at the outer ends of a text are dropped before its entities are resolved; those of
CDATA stay.
-/

namespace Proctor.Xml

inductive Event
  | start (tag : Tag)
  | finish (name : List Char)
  | text (chars : List Char)
  | eof
  deriving DecidableEq, Repr

/-- Markup that can be part of an event, or the end of a scan. -/
inductive Piece
  | start (tag : Tag)
  | finish (name : List Char)
  | text (chars : List Char)
  | cdata (chars : List Char)
  | doctype
  | eof
  | fault (fault : Fault)
  deriving DecidableEq, Repr

/-- A reader has one piece in hand, so that it knows whether a text goes on. `trims` tells whether
blanks at the start of the next text are dropped. -/
structure Reader where
  markup : List Markup
  ending : Option Fault
  trims : Bool
  ahead : Piece
  deriving DecidableEq, Repr

namespace Reader

def trimStart (cs : List Char) : List Char :=
  cs.dropWhile isBlank

def trimEnd (cs : List Char) : List Char :=
  (cs.reverse.dropWhile isBlank).reverse

/-- The next piece, the markup behind it, and whether blanks are dropped behind it. Blank text where
blanks are dropped is no piece. -/
def pull (ending : Option Fault) (trims : Bool) : List Markup → Piece × List Markup × Bool
  | [] => (match ending with | some fault => .fault fault | none => .eof, [], true)
  | .start tag :: rest => (.start tag, rest, true)
  | .finish name :: rest => (.finish name, rest, true)
  | .doctype :: rest => (.doctype, rest, true)
  | .cdata chars :: rest => (.cdata chars, rest, false)
  | .passed :: rest => pull ending trims rest
  | .text chars :: rest =>
    if trims then
      match trimStart chars with
      | [] => pull ending trims rest
      | chars => (.text chars, rest, false)
    else (.text chars, rest, false)

/-- Takes the next piece in hand. -/
def advance (r : Reader) : Reader :=
  let (ahead, markup, trims) := pull r.ending r.trims r.markup
  { r with markup, trims, ahead }

def ofScan (s : Scan) : Reader :=
  advance ⟨s.markup, s.fault, true, .eof⟩

/-- Whether the text before the piece in hand ends there. -/
def endsText (r : Reader) : Bool :=
  match r.ahead with
  | .text _ => false
  | .cdata _ => false
  | _ => true

def resolve (chars : List Char) : Except Fault (List Char) :=
  (Entity.unescape chars).mapError .entity

/-- Adds all text and CDATA that follows on `read`. -/
def joinText (read : List Char) : Nat → Reader → Except Fault (List Char × Reader)
  | 0, r => .ok (read, r)
  | fuel + 1, r =>
    match r.ahead with
    | .text chars => do
      let r := r.advance
      let chars ← resolve (if r.endsText then trimEnd chars else chars)
      joinText (read ++ chars) fuel r
    | .cdata chars => joinText (read ++ chars) fuel r.advance
    | _ => .ok (read, r)

/-- The text that starts with `read`. -/
def textFrom (read : List Char) (r : Reader) : Except Fault (Event × Reader) := do
  let (chars, r) ← joinText read (r.markup.length + 1) r
  .ok (.text chars, r)

/-- The next event, and the reader behind it. -/
def nextWithin : Nat → Reader → Except Fault (Event × Reader)
  | 0, r => .ok (.eof, r)
  | fuel + 1, r =>
    let piece := r.ahead
    let r := r.advance
    match piece with
    | .start tag => .ok (.start tag, r)
    | .finish name => .ok (.finish name, r)
    | .eof => .ok (.eof, r)
    | .fault fault => .error fault
    | .doctype => nextWithin fuel r
    | .cdata chars => textFrom chars r
    | .text chars =>
      if r.endsText then
        match trimEnd chars with
        | [] => nextWithin fuel r
        | chars => do textFrom (← resolve chars) r
      else do textFrom (← resolve chars) r

def next (r : Reader) : Except Fault (Event × Reader) :=
  nextWithin (r.markup.length + 2) r

def missingEnd (name : List Char) : Fault :=
  .missingEnd (String.ofList name)

/-- The markup behind the end tag that closes `depth` more elements of a name than it opens. -/
def passElement (ending : Option Fault) (name : List Char) (depth : Nat) :
    List Markup → Except Fault (List Markup)
  | [] => .error (ending.getD (missingEnd name))
  | .start tag :: rest =>
    passElement ending name (if tag.name = name then depth + 1 else depth) rest
  | .finish found :: rest =>
    if found = name then
      match depth with
      | 0 => .ok rest
      | depth + 1 => passElement ending name depth rest
    else passElement ending name depth rest
  | _ :: rest => passElement ending name depth rest

/-- Passes over an element whose start was read. Its text is not looked at, and it leaves no trace in
what is dropped behind it. -/
def skipElement (name : List Char) (r : Reader) : Except Fault Reader := do
  match r.ahead with
  | .fault fault => .error fault
  | .finish found =>
    if found = name then .ok r.advance
    else .ok { r with markup := ← passElement r.ending name 0 r.markup }.advance
  | .start tag =>
    let depth := if tag.name = name then 1 else 0
    .ok { r with markup := ← passElement r.ending name depth r.markup }.advance
  | _ => .ok { r with markup := ← passElement r.ending name 0 r.markup }.advance

end Reader

end Proctor.Xml
