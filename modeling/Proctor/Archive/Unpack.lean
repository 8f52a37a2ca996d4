import Proctor.Archive.Sparse
import Proctor.KeyMap

/-!
Reading archives. Members that describe the next one (a long name, a long link, extended attributes)
are joined with it; an archive ends with its bytes or with a block of zeros.
-/

namespace Proctor.Archive

/-- A member as read: its header, its path, and as much of its data as there is. -/
structure Member where
  header : Header
  path : Bytes
  data : Bytes
  deriving DecidableEq, Repr

/-- What members before the next one say about it. -/
structure Description where
  longName : Option Bytes := none
  longLink : Option Bytes := none
  attributes : Option Bytes := none
  deriving DecidableEq, Repr

/-- Key and value of a line `length key=value`, whose length counts the line itself and its end. -/
def attribute? (line : Bytes) : Option (Bytes × Bytes) := do
  let written := line.takeWhile (· ≠ 32)
  let pair := (line.drop written.length).drop 1
  let length ← Decimal.read? UInt64.size (← Utf8.decode? written)
  if written.length < line.length ∧ length = line.length + 1 ∧ pair.contains 61 then
    some (pair.takeWhile (· ≠ 61), (pair.dropWhile (· ≠ 61)).drop 1)
  else none

/-- The lines of extended attributes up to the first empty one. -/
def attributeLines (bs : Bytes) : List Bytes :=
  (bs.splitOnP (· == 10)).takeWhile (!·.isEmpty)

/-- The first value of a key in extended attributes; malformed lines do not count. -/
def attributeValue? (key : String) (bs : Bytes) : Option Bytes :=
  ((attributeLines bs).filterMap attribute?).lookup (Utf8.encode key)

/-- The size in extended attributes, none when a malformed line comes before it. -/
def attributeSize? (bs : Bytes) : Option Nat := do
  let sound := ((attributeLines bs).map attribute?).takeWhile Option.isSome
  let value ← (sound.filterMap id).lookup (Utf8.encode "size")
  Decimal.read? UInt64.size (← Utf8.decode? value)

/-- A long name goes before the path of extended attributes, and that before the header. -/
def memberPath (d : Description) (h : Header) : Bytes :=
  match d.longName with
  | some name => if name.getLast? = some 0 then name.dropLast else name
  | none => (d.attributes.bind (attributeValue? "path")).getD h.name

/-- The size of the next member; extended attributes give it when the header says zero. -/
def memberSize (d : Description) (h : Header) : Nat :=
  if h.size = 0 then (d.attributes.bind attributeSize?).getD 0 else h.size

/-- Takes a member that describes the next one. -/
def Description.add? (d : Description) (kind : Kind) (data : Bytes) :
    Option (Except Fault Description) :=
  if kind = Kind.longName then
    some (if d.longName.isSome then .error .repeatedName else .ok { d with longName := some data })
  else if kind = Kind.longLink then
    some (if d.longLink.isSome then .error .repeatedName else .ok { d with longLink := some data })
  else if kind = Kind.attributes then
    some (if d.attributes.isSome then .error .repeatedAttributes
      else .ok { d with attributes := some data })
  else none

def Description.isEmpty (d : Description) : Bool :=
  d.longName.isNone && d.longLink.isNone && d.attributes.isNone

/-- Reads members after those in `read`, which is in reverse. The padding of a member must be there. -/
def membersFrom (read : List Member) (d : Description) : Nat → Bytes → Except Fault (List Member)
  | 0, _ => .ok read.reverse
  | fuel + 1, bs =>
    let block := bs.take blockSize
    if bs.isEmpty ∨ (block.length = blockSize ∧ block.all (· == 0)) then
      if d.isEmpty then .ok read.reverse else .error .nothingDescribed
    else if block.length < blockSize then .error .partialBlock
    else do
      let header ← Header.ofBlock block
      let size := memberSize d header
      if UInt64.size ≤ size + (blockSize - 1) then .error .sizeOverflow
      else
        let body := bs.drop blockSize
        let whole := (size + (blockSize - 1)) / blockSize * blockSize
        let described := if isGnu block ∨ isUstar block then d.add? header.kind (body.take size)
          else none
        match described with
        | some (.error fault) => .error fault
        | some (.ok d) =>
          if body.length < whole then .error .cutShort else membersFrom read d fuel (body.drop whole)
        | none =>
          let body ← if header.kind = Kind.sparse then sparseBody block size body else .ok body
          if body.length < whole then .error .cutShort
          else
            membersFrom (⟨header, memberPath d header, body.take size⟩ :: read) {} fuel
              (body.drop whole)

/-- All members of an archive in order. -/
def members (archive : Bytes) : Except Fault (List Member) :=
  membersFrom [] {} (archive.length / blockSize + 2) archive

def Member.isFile (m : Member) : Bool :=
  m.header.kind = Kind.file || m.header.kind = Kind.oldFile

/-- The files among some members by clean path; of several with one path the last stands. -/
def filesOf (members : List Member) : KeyMap Bytes :=
  KeyMap.ofList ((members.filter Member.isFile).filterMap fun m =>
    (cleanPath? m.path).map (·, m.data))

def unpack (archive : Bytes) : Except Fault (KeyMap Bytes) :=
  (members archive).map filesOf

end Proctor.Archive
