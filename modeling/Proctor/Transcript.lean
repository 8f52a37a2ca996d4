import Proctor.Event

/-!
The bounded record of a session. Output of one stream that follows on itself is one entry. A stream
is cut off once the record holds enough bytes, and no entry is added beyond the limit.
-/

namespace Proctor

structure Transcript where
  dataLimit : Nat := 100000
  entryLimit : Nat := 500
  entries : List Entry := []
  dataSize : Nat := 0
  discardedBytes : Nat := 0
  discardedEntries : Nat := 0
  deriving DecidableEq, Repr

namespace Transcript

/-- The entries with another one merged into the last of them, when that is of the same stream. -/
def extendLast? : List Entry → Entry → Option (List Entry)
  | [], _ => none
  | [last], e => (last.merge? e).map ([·])
  | first :: rest, e => (extendLast? rest e).map (first :: ·)

def record (t : Transcript) (e : Entry) : Transcript :=
  let size := e.event.dataSize
  if e.event.output?.isSome ∧ t.dataLimit ≤ t.dataSize then
    { t with discardedBytes := t.discardedBytes + size }
  else
    match extendLast? t.entries e with
    | some entries => { t with entries, dataSize := t.dataSize + size }
    | none =>
      if t.entries.length < t.entryLimit then
        { t with entries := t.entries ++ [e], dataSize := t.dataSize + size }
      else
        { t with
          discardedBytes := t.discardedBytes + size
          discardedEntries := t.discardedEntries + 1 }

def recordAll (t : Transcript) (entries : List Entry) : Transcript :=
  entries.foldl record t

end Transcript

end Proctor
