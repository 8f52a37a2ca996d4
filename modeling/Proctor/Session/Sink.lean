import Proctor.Wire

/-!
Where the frames of a session go. A client may be gone, so a frame may fail to be sent. A sink keeps what
was done with it, in order.
-/

namespace Proctor

/-- A frame got through or was lost, or the sink was closed. -/
inductive Sink.Call
  | sent (frame : Response)
  | lost (frame : Response)
  | closed
  deriving DecidableEq, Repr

/-- Whether the n-th frame that is tried gets through, counted from zero, and what was done so far. -/
structure Sink where
  accepts : Nat → Bool
  calls : List Sink.Call := []

namespace Sink

/-- A sink that fails from its n-th frame on, counted from zero. -/
def failingAfter (n : Nat) : Sink := { accepts := (· < n) }

def reliable : Sink := { accepts := fun _ => true }

def Call.frame? : Call → Option Response
  | .sent frame => some frame
  | _ => none

/-- The frames that got through. -/
def frames (s : Sink) : List Response :=
  s.calls.filterMap Call.frame?

/-- The number of frames that were tried. -/
def tried (s : Sink) : Nat :=
  s.calls.countP (· ≠ .closed)

/-- How often the sink was closed. -/
def closed (s : Sink) : Nat :=
  s.calls.count .closed

def note (call : Call) (s : Sink) : Sink :=
  { s with calls := s.calls ++ [call] }

/-- Sends a frame, and tells whether it got through. -/
def send (frame : Response) (s : Sink) : Bool × Sink :=
  if s.accepts s.tried then (true, s.note (.sent frame)) else (false, s.note (.lost frame))

def close (s : Sink) : Sink :=
  s.note .closed

/-- Sends the last frame, which may fail, and closes. -/
def finish (frame : Response) (s : Sink) : Sink :=
  (s.send frame).2.close

@[simp] theorem calls_note (call : Call) (s : Sink) : (s.note call).calls = s.calls ++ [call] := rfl

@[simp] theorem accepts_note (call : Call) (s : Sink) : (s.note call).accepts = s.accepts := rfl

@[simp] theorem frames_note (call : Call) (s : Sink) :
    (s.note call).frames = s.frames ++ call.frame?.toList := by
  cases call <;> simp [frames, Call.frame?]

@[simp] theorem frames_close (s : Sink) : s.close.frames = s.frames := by
  simp [close, Call.frame?]

end Sink

end Proctor
