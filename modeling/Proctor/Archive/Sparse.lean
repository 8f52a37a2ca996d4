import Proctor.Archive.Header

/-!
Sparse members: files with holes. The header lists runs of data, and blocks behind it can list more.
The runs must be in order and must add up to the data of the member and to the length of the file.
-/

namespace Proctor.Archive

/-- What the runs so far come to: the file up to `reached`, with `left` bytes of data to come. -/
structure Cover where
  reached : Nat
  left : Nat
  deriving DecidableEq, Repr

/-- Adds a run, which is written as its offset and its length; one that leaves either out is none. A run
must start a block of the data, of which there are `size` bytes. -/
def Cover.add (size : Nat) (c : Cover) (run : Bytes) : Except Fault Cover :=
  if run.head? = some 0 ∨ run[12]? = some 0 then .ok c
  else do
    let offset ← readOctal "offset from sparse header" (slice 0 12 run)
    let length ← readOctal "length from sparse header" (slice 12 12 run)
    if length ≠ 0 ∧ (size - c.left) % blockSize ≠ 0 then .error .runUnaligned
    else if offset < c.reached then .error .runsOverlap
    else if UInt64.size ≤ offset + length then .error .runTooLong
    else if c.left < length then .error .runsExceedData
    else .ok ⟨offset + length, c.left - length⟩

/-- Adds `count` runs that a block lists from a position. -/
def Cover.addListed (size : Nat) (c : Cover) (first count : Nat) (block : Bytes) :
    Except Fault Cover :=
  ((List.range count).map fun i => slice (first + 24 * i) 24 block).foldlM (Cover.add size) c

/-- Adds the runs in the blocks behind a header, which say whether another follows; also gives what
follows them. -/
def Cover.addBlocks (size : Nat) (c : Cover) : Nat → Bytes → Except Fault (Cover × Bytes)
  | 0, bs => .ok (c, bs)
  | fuel + 1, bs =>
    let block := bs.take blockSize
    if block.isEmpty then .error .runsMissing
    else if block.length < blockSize then .error .partialBlock
    else do
      let c ← c.addListed size 0 21 block
      let rest := bs.drop blockSize
      if block[504]? = some 1 then c.addBlocks size fuel rest else .ok (c, rest)

/-- The data behind the header of a sparse member and behind its lists of runs. -/
def sparseBody (block : Bytes) (size : Nat) (body : Bytes) : Except Fault Bytes :=
  if isGnu block then do
    let c ← Cover.addListed size ⟨0, size⟩ 386 4 block
    let (c, body) ←
      if block[482]? = some 1 then c.addBlocks size (body.length / blockSize + 1) body
      else .ok (c, body)
    if c.reached ≠ (← octalValue "real_size" block (slice 483 12 block)) then .error .wrongFileSize
    else if 0 < c.left then .error .dataExceedsRuns
    else .ok body
  else .error .runsUnlisted

end Proctor.Archive
