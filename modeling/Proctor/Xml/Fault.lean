import Proctor.Decimal
import Proctor.Hex
import Proctor.Text.Quoted

/-!
What can be wrong with an XML document, and with the record that is read from it.
-/

namespace Proctor.Xml

/-- Kinds of markup that have an end of their own. -/
inductive Markup.Kind
  | tag
  | comment
  | cdata
  | doctype
  | instruction
  deriving DecidableEq, Repr

/-- Positions count bytes from the name of the tag. -/
inductive AttributeFault
  | expectedEquals (position : Nat)
  | expectedValue (position : Nat)
  | unquotedValue (position : Nat)
  | unclosedValue (position : Nat) (quote : Char)
  | repeated (position previous : Nat)
  deriving DecidableEq, Repr

inductive ReferenceFault
  | sign
  | empty
  | invalidDigit
  | tooLarge
  | zero
  | notACharacter (code : Nat)
  deriving DecidableEq, Repr

/-- Ranges count bytes of the text that holds the entity. -/
inductive EntityFault
  | unterminated (first last : Nat)
  | unknown (first last : Nat) (name : String)
  | reference (fault : ReferenceFault)
  deriving DecidableEq, Repr

inductive Fault
  | unclosed (kind : Markup.Kind)
  | unknownMarkup
  | namelessDoctype
  | mismatchedEnd (expected found : String)
  | unmatchedEnd (name : String)
  | missingEnd (name : String)
  | attribute (fault : AttributeFault)
  | entity (fault : EntityFault)
  | unexpectedStart (name : String)
  | unexpectedEnd
  | repeatedField (name : String)
  | wrongText (found expected : String)
  deriving DecidableEq, Repr

def Markup.Kind.description : Markup.Kind → String
  | .tag => "tag not closed: `>`"
  | .comment => "comment not closed: `-->`"
  | .cdata => "CDATA not closed: `]]>`"
  | .doctype => "DOCTYPE not closed: `>`"
  | .instruction => "processing instruction or xml declaration not closed: `?>`"

def AttributeFault.message : AttributeFault → String
  | .expectedEquals position =>
    s!"position {Decimal.text position}: attribute key must be directly followed by `=` or space"
  | .expectedValue position =>
    s!"position {Decimal.text position}: `=` must be followed by an attribute value"
  | .unquotedValue position =>
    s!"position {Decimal.text position}: attribute value must be enclosed in `\"` or `'`"
  | .unclosedValue position quote =>
    s!"position {Decimal.text position}: missing closing quote `{String.singleton quote}` " ++
      "in attribute value"
  | .repeated position previous =>
    s!"position {Decimal.text position}: duplicated attribute, previous declaration at position " ++
      Decimal.text previous

def ReferenceFault.message : ReferenceFault → String
  | .sign => "unexpected number sign"
  | .empty => "cannot parse integer from empty string"
  | .invalidDigit => "invalid digit found in string"
  | .tooLarge => "number too large to fit in target type"
  | .zero => "0x0 character is not permitted in XML"
  | .notACharacter code => s!"`{Decimal.text code}` is not a valid codepoint"

def EntityFault.message : EntityFault → String
  | .unterminated first last =>
    s!"Error while escaping character at range {Decimal.text first}..{Decimal.text last}: " ++
      "Cannot find ';' after '&'"
  | .unknown first last name =>
    s!"at {Decimal.text first}..{Decimal.text last}: unrecognized entity `{name}`"
  | .reference fault => s!"invalid character reference: {fault.message}"

/-- Printable ASCII as it is, every other byte by its value. -/
def nameByte (b : UInt8) : List Char :=
  if b = 34 then ['\\', '"']
  else if 32 ≤ b ∧ b ≤ 126 then [Char.ofNat b.toNat]
  else
    let upper := (Hex.charsOnto b.toNat []).map Char.toUpper
    ['0', 'x'] ++ upper

def nameText (name : String) : String :=
  String.ofList ('"' :: (Utf8.encode name).flatMap nameByte ++ ['"'])

def Fault.message : Fault → String
  | .unclosed kind => s!"syntax error: {kind.description} not found before end of input"
  | .unknownMarkup => "syntax error: unknown or missed symbol in markup"
  | .namelessDoctype =>
    "ill-formed document: `<!DOCTYPE>` declaration does not contain a name of a document type"
  | .mismatchedEnd expected found =>
    s!"ill-formed document: expected `</{expected}>`, but `</{found}>` was found"
  | .unmatchedEnd name =>
    s!"ill-formed document: close tag `</{name}>` does not match any open tag"
  | .missingEnd name =>
    s!"ill-formed document: start tag not closed: `</{name}>` not found before end of input"
  | .attribute fault => s!"error while parsing attribute: {fault.message}"
  | .entity fault => fault.message
  | .unexpectedStart name => s!"unexpected `Event::Start({nameText name})`"
  | .unexpectedEnd => "unexpected `Event::Eof`"
  | .repeatedField name => s!"duplicate field `{name}`"
  | .wrongText found expected =>
    s!"invalid type: string {Text.quoted found}, expected {expected}"

end Proctor.Xml
