import Proctor.Engine

/-!
Child processes: what running a program gives, and what it takes to run one.
-/

namespace Proctor

/-- A program exits with one byte, or a signal ends it. -/
inductive Exit
  | code (status : UInt8)
  | signal (number : Nat)
  deriving DecidableEq, Repr

/-- The status of a program; a signal that ended it shows above 128. -/
def Exit.status : Exit → Int
  | .code status => status.toNat
  | .signal number => 128 + number

/-- What a program wrote, in the pieces in which it was read, and how it ended. -/
structure Reply where
  chunks : List Chunk := []
  exit : Exit := .code 0
  deriving DecidableEq, Repr

def Reply.output (r : Reply) (channel : Channel) : Bytes :=
  ((r.chunks.filter (·.channel = channel)).map (·.data)).flatten

/-- Runs a program with arguments and input to its end, or tells why it cannot be run. -/
abbrev Launcher (σ : Type) :=
  List String → Bytes → σ → Except String Reply × σ

/-- One run of a program. -/
structure Call where
  arguments : List String
  input : Bytes
  deriving DecidableEq, Repr

/-- A program of which all replies are known beforehand, unless it cannot be run for some reason. It
succeeds silently once they are used up. -/
structure Rehearsal where
  obstacle : Option String := none
  replies : List Reply := []
  calls : List Call := []
  deriving DecidableEq, Repr

def Rehearsal.launch : Launcher Rehearsal := fun arguments input r =>
  match r.obstacle with
  | some reason => (.error reason, r)
  | none =>
    (.ok (r.replies.head?.getD {}),
      { r with replies := r.replies.tail, calls := r.calls ++ [⟨arguments, input⟩] })

end Proctor
