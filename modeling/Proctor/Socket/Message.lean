import Proctor.Socket.Frame

/-!
Messages on a socket: a text or some bytes, in one frame or in fragments, and the control frames
between them.
-/

namespace Proctor.Socket

inductive Message
  | text (content : String)
  | binary (content : Bytes)
  | close
  | ping
  | pong
  deriving DecidableEq, Repr

/-- What arrives on a socket: messages, the last of which closes it, or a breach that ends it. -/
inductive Incoming
  | message (message : Message)
  | breach (breach : Breach)
  deriving DecidableEq, Repr

/-- The fragments of a message so far. -/
structure Fragments where
  isText : Bool
  content : Bytes
  deriving DecidableEq, Repr

namespace Fragments

/-- Bytes that a message may have at most. -/
def sizeLimit : Nat := 64 * 1024 * 1024

/-- Fragments with one more. A text must still be able to become UTF-8. -/
def extend (f : Fragments) (payload : Bytes) : Except Breach Fragments :=
  let content := f.content ++ payload
  if sizeLimit < content.length then .error .messageTooLong
  else if f.isText ∧ ¬Utf8.isOpenText content then .error .notText
  else .ok { f with content }

def finish (f : Fragments) : Except Breach Message :=
  if f.isText then
    match Utf8.decode? f.content with
    | some content => .ok (.text content)
    | none => .error .notText
  else .ok (.binary f.content)

end Fragments

/-- Two bytes of a code and a text, or nothing. -/
def isClosePayload : Bytes → Bool
  | [] => true
  | [_] => false
  | _ :: _ :: reason => (Utf8.decode? reason).isSome

/-- What a control frame says. -/
def control (f : Frame) : Except Breach Message :=
  if ¬f.final then .error .fragmentedControl
  else if Frame.controlLimit < f.payload.length then .error .controlTooLong
  else
    match f.opcode with
    | .close => if isClosePayload f.payload then .ok .close else .error .malformedClose
    | .ping => .ok .ping
    | _ => .ok .pong

/-- The fragments with those of a frame. Only a continuation adds to a message, and nothing else may
come before the message is complete. -/
def continueWith (fragments : Option Fragments) (f : Frame) : Except Breach Fragments :=
  match f.opcode, fragments with
  | .continuation, none => .error .continuesNothing
  | .continuation, some fragments => fragments.extend f.payload
  | _, some _ => .error .interruptsFragments
  | opcode, none => Fragments.extend ⟨opcode = .text, []⟩ f.payload

/-- The message that a frame completes, if it does, and the fragments that are left open. -/
def join (fragments : Option Fragments) (f : Frame) :
    Except Breach (Option Message × Option Fragments) :=
  if f.reserved then .error .reservedFlag
  else if f.opcode.isControl then do
    .ok (some (← control f), fragments)
  else do
    let joined ← continueWith fragments f
    if f.final then .ok (some (← joined.finish), none) else .ok (none, some joined)

/-- All that arrives in some bytes, after open fragments. -/
def incomingAfter (fragments : Option Fragments) (bs : Bytes) : List Incoming :=
  match _ : Frame.scan bs with
  | .incomplete => []
  | .broken breach => [.breach breach]
  | .frame f rest =>
    match join fragments f with
    | .error breach => [.breach breach]
    | .ok (some .close, _) => [.message .close]
    | .ok (some message, fragments) => .message message :: incomingAfter fragments rest
    | .ok (none, fragments) => incomingAfter fragments rest
  termination_by bs.length
  decreasing_by all_goals exact Frame.length_lt_of_scan ‹_›

/-- All that a client sends until it ends its stream. -/
def incoming (bs : Bytes) : List Incoming :=
  incomingAfter none bs

end Proctor.Socket
